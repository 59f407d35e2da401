import Rs485.Framework.Wakeups
import Rs485.Impl.RtosTasks

/-!
# Tasks that wait at a queue

No wake is lost: a task waits for an item only while there are no more items than tasks that are about to
attempt to receive, and likewise for room (`no_lost_wakeup`). Each kind of step is a rule of
`Framework/Wakeups`, for the tasks that receive with the items as tokens (`Recv`), and for those that
send with the room (`Send`); that a task is alone with the locked queue is `Exclusive`.

`xQueueReset` makes room for many and wakes one, so that the second half is about runs without it.
-/

namespace Rs485.RtosQueue

open Rs485.Framework

variable {n : Nat} {s u : Kernel n} {t : Fin n} {c : Task} {prio : Fin n → Nat} {q : Queue} {b : Bool}

/-! ## Counts -/

section

variable {item : Nat → Byte} {front : Bool}

theorem send_passes (h : (xQueueGenericSend q item (position front)).1 = true) :
    (xQueueGenericSend q item (position front)).2.uxMessagesWaiting = q.uxMessagesWaiting + 1 ∧
      (xQueueGenericSend q item (position front)).2.uxLength = q.uxLength ∧
        q.uxMessagesWaiting < q.uxLength := by
  have hno : position front ≠ .overwrite := by cases front <;> decide
  rw [xQueueGenericSend] at h ⊢
  by_cases hroom : q.uxMessagesWaiting < q.uxLength
  · rw [if_pos (.inl hroom), prvCopyDataToQueue]
    refine ⟨?_, ?_, hroom⟩
    · split
      · rfl
      · split
        · rfl
        · show (if _ ∧ _ then _ else _) + 1 = _
          rw [if_neg fun ho => hno ho.1]
    · split
      · rfl
      · split <;> rfl
  · rw [if_neg (by simp [hroom, hno])] at h
    exact absurd h (by simp)

theorem send_fails (h : (xQueueGenericSend q item (position front)).1 = false) :
    q.uxLength ≤ q.uxMessagesWaiting := by
  rw [xQueueGenericSend] at h
  by_cases hroom : q.uxMessagesWaiting < q.uxLength
  · rw [if_pos (.inl hroom)] at h
    exact absurd h (by simp)
  · exact Nat.le_of_not_lt hroom

end

theorem copyFrom_counts : (prvCopyDataFromQueue q).2.uxMessagesWaiting = q.uxMessagesWaiting ∧
    (prvCopyDataFromQueue q).2.uxLength = q.uxLength := by
  rw [prvCopyDataFromQueue]
  split <;> exact ⟨rfl, rfl⟩

theorem receive_passes (h : (xQueueReceive q).1.isSome) :
    (xQueueReceive q).2.uxMessagesWaiting + 1 = q.uxMessagesWaiting ∧
    (xQueueReceive q).2.uxLength = q.uxLength := by
  rw [xQueueReceive] at h ⊢
  by_cases hpos : q.uxMessagesWaiting > 0
  · rw [if_pos hpos]
    exact ⟨Nat.sub_add_cancel hpos, copyFrom_counts.2⟩
  · rw [if_neg hpos] at h
    exact absurd h (by simp)

theorem receive_fails (h : ¬ (xQueueReceive q).1.isSome) : q.uxMessagesWaiting = 0 := by
  rw [xQueueReceive] at h
  by_cases hpos : q.uxMessagesWaiting > 0
  · rw [if_pos hpos] at h
    exact absurd rfl h
  · omega

theorem peek_counts : (xQueuePeek q).2.uxMessagesWaiting = q.uxMessagesWaiting ∧
    (xQueuePeek q).2.uxLength = q.uxLength := by
  rw [xQueuePeek]
  split
  · exact copyFrom_counts
  · exact ⟨rfl, rfl⟩

theorem peek_fails (h : ¬ (xQueuePeek q).1.isSome) : q.uxMessagesWaiting = 0 := by
  rw [xQueuePeek] at h
  by_cases hpos : q.uxMessagesWaiting > 0
  · rw [if_pos hpos] at h
    exact absurd rfl h
  · omega

/-! ## Lists -/

theorem vListInsert_perm (l : List (Fin n)) : (vListInsert prio t l).Perm (t :: l) := by
  rw [vListInsert]
  refine List.perm_middle.trans ?_
  rw [List.takeWhile_append_dropWhile]

theorem unlockLoop_eq (k : Nat) (l : List (Fin n)) : unlockLoop k l = l.drop k := by
  induction k generalizing l with
  | zero => rfl
  | succ k ih =>
    rw [unlockLoop]
    cases l with
    | nil => rfl
    | cons x l => exact ih l

/-! ## Tasks -/

/-- Another attempt follows if nothing keeps the task from it. -/
def Pc.again : Pc → Bool
  | .attempt => true
  | .unlockTx again => again
  | .unlockRx again => again
  | .resume again => again
  | _ => false

/-- The scheduler is suspended. -/
def Pc.inside : Pc → Bool
  | .attempt => false
  | .lock => false
  | .timedOut => false
  | _ => true

theorem Pc.attempt_of_again {pc : Pc} (h : pc.again) (hin : ¬ pc.inside) : pc = .attempt := by
  cases pc <;> simp_all [Pc.again, Pc.inside]

/-- `cTxLock` is locked. -/
def Pc.lockTx : Pc → Bool
  | .check => true
  | .place => true
  | .unlockTx _ => true
  | _ => false

/-- `cRxLock` is locked. -/
def Pc.lockRx : Pc → Bool
  | .unlockRx _ => true
  | pc => pc.lockTx

/-- The task will attempt to send (`b`) or to receive. -/
def Eager (b : Bool) : Option Task → Bool
  | some c => c.call.sends == b && c.pc.again
  | none => false

/-- The task is about to wait to send (`b`) or to receive. -/
def Placing (b : Bool) : Option Task → Bool
  | some c => c.call.sends == b && c.pc == .place
  | none => false

/-- The tasks that are eager. -/
def eager (tasks : Fin n → Option Task) (b : Bool) (t : Fin n) : Bool := Eager b (tasks t)

/-- A task is about to wait. -/
def placing (tasks : Fin n → Option Task) (b : Bool) : Prop := ∃ t, Placing b (tasks t)

section

variable {tasks : Fin n → Option Task} {e : Option Task} {i : Fin n}

theorem eager_update (h : Eager b (tasks t) → Eager b e) (i : Fin n) (hi : eager tasks b i) :
    eager (Function.update tasks t e) b i := by
  rw [eager]
  by_cases he : i = t
  · subst he
    rw [Function.update_self]
    exact h hi
  · rw [Function.update_of_ne he]
    exact hi

theorem eager_update_ne (i : Fin n) (h : i ≠ t) (hi : eager tasks b i) :
    eager (Function.update tasks t e) b i := by
  rw [eager, Function.update_of_ne h]
  exact hi

theorem placing_update (h : Placing b e → placing tasks b) (hp : placing (Function.update tasks t e) b) :
    placing tasks b := by
  obtain ⟨i, hi⟩ := hp
  by_cases he : i = t
  · subst he
    rw [Function.update_self] at hi
    exact h hi
  · rw [Function.update_of_ne he] at hi
    exact ⟨i, hi⟩

end

/-! ## One task at a time -/

/-- A lock is locked or not. -/
def Lock (locked : Bool) (lock : Int) : Prop := if locked then 0 ≤ lock else lock = queueUnlocked

/-- The locks are locked by the task that has suspended the scheduler, and no other task is inside. -/
def Exclusive (s : Kernel n) : Prop :=
  (∀ t c, s.tasks t = some c → c.pc.inside → s.suspendedBy = some t) ∧
    match s.suspendedBy with
    | none => Lock false s.cTxLock ∧ Lock false s.cRxLock
    | some t => ∃ c, s.tasks t = some c ∧ c.pc.inside ∧ Lock c.pc.lockTx s.cTxLock ∧ Lock c.pc.lockRx s.cRxLock

namespace Exclusive

variable (h : Exclusive s)
include h

theorem unlocked (hs : s.suspendedBy = none) : s.cTxLock = queueUnlocked ∧ s.cRxLock = queueUnlocked := by
  have hlocks := h.2
  rw [hs] at hlocks
  exact hlocks

theorem not_placing (hs : s.suspendedBy = none) : ¬ placing s.tasks b := by
  rintro ⟨t, ht⟩
  cases hc : s.tasks t with
  | none =>
    rw [hc] at ht
    exact Bool.false_ne_true ht
  | some c =>
    rw [hc, Placing, Bool.and_eq_true, beq_iff_eq, beq_iff_eq] at ht
    have hown := h.1 t c hc (by rw [ht.2]; rfl)
    rw [hs] at hown
    exact absurd hown.symm (Option.some_ne_none t)

/-- A task about to wait has locked the queue. -/
theorem locked_of_placing (hp : placing s.tasks b) : 0 ≤ s.cTxLock ∧ 0 ≤ s.cRxLock := by
  obtain ⟨t, ht⟩ := hp
  cases hc : s.tasks t with
  | none =>
    rw [hc] at ht
    exact absurd ht Bool.false_ne_true
  | some c =>
    rw [hc, Placing, Bool.and_eq_true, beq_iff_eq, beq_iff_eq] at ht
    have hown := h.1 t c hc (by rw [ht.2]; rfl)
    have hlocks := h.2
    rw [hown] at hlocks
    obtain ⟨c', hc', -, htx, hrx⟩ := hlocks
    rw [hc, Option.some.injEq] at hc'
    rw [← hc', ht.2] at htx hrx
    exact ⟨htx, hrx⟩

theorem not_placing_of_unlocked (hlock : s.cTxLock = queueUnlocked ∨ s.cRxLock = queueUnlocked) :
    ¬ placing s.tasks b := fun hp => by
  obtain ⟨htx, hrx⟩ := h.locked_of_placing hp
  rcases hlock with hlock | hlock
  · rw [hlock] at htx
    exact absurd htx (by decide)
  · rw [hlock] at hrx
    exact absurd hrx (by decide)

/-- A task that runs outside runs while the scheduler is not suspended, and waits for nothing. -/
theorem of_outside (hr : s.Runs t) (hc : s.tasks t = some c) (hpc : c.pc.inside = false) :
    s.suspendedBy = none ∧ ¬ s.Waits t := by
  refine hr.resolve_left fun hown => ?_
  have hlocks := h.2
  rw [hown] at hlocks
  obtain ⟨c', hc', hin, -⟩ := hlocks
  rw [hc, Option.some.injEq] at hc'
  rw [hc', hin] at hpc
  exact Bool.noConfusion hpc

/-- A task inside has the locks. -/
theorem of_inside (hc : s.tasks t = some c) (hpc : c.pc.inside) :
    s.suspendedBy = some t ∧ Lock c.pc.lockTx s.cTxLock ∧ Lock c.pc.lockRx s.cRxLock := by
  have hown := h.1 t c hc hpc
  have hlocks := h.2
  rw [hown] at hlocks
  obtain ⟨c', hc', -, htx, hrx⟩ := hlocks
  rw [hc, Option.some.injEq] at hc'
  rw [hc']
  exact ⟨hown, htx, hrx⟩

/-- A task goes on inside. -/
theorem go (hc : s.tasks t = some c) (hpc : c.pc.inside) {e : Task} (hin : e.pc.inside)
    (hu : u.suspendedBy = s.suspendedBy)
    (htasks : u.tasks = Function.update s.tasks t (some e)) (htx : Lock e.pc.lockTx u.cTxLock)
    (hrx : Lock e.pc.lockRx u.cRxLock) : Exclusive u := by
  have hown := h.1 t c hc hpc
  refine ⟨fun i d hd hdin => ?_, ?_⟩
  · rw [hu]
    rw [htasks] at hd
    by_cases hi : i = t
    · rw [hi]
      exact hown
    · rw [Function.update_of_ne hi] at hd
      exact h.1 i d hd hdin
  · rw [hu, hown]
    exact ⟨e, by rw [htasks, Function.update_self], hin, htx, hrx⟩

/-- A task goes on outside, or returns. -/
theorem out (hs : s.suspendedBy = none) {e : Option Task} (hin : ∀ d, e = some d → d.pc.inside = false)
    (hu : u.suspendedBy = none) (htasks : u.tasks = Function.update s.tasks t e)
    (htx : u.cTxLock = queueUnlocked)
    (hrx : u.cRxLock = queueUnlocked) : Exclusive u := by
  refine ⟨fun i d hd hdin => ?_, ?_⟩
  · rw [htasks] at hd
    by_cases hi : i = t
    · rw [hi, Function.update_self] at hd
      rw [hin d hd] at hdin
      exact Bool.noConfusion hdin
    · rw [Function.update_of_ne hi] at hd
      have hown := h.1 i d hd hdin
      rw [hs] at hown
      exact absurd hown.symm (Option.some_ne_none i)
  · rw [hu]
    exact ⟨htx, hrx⟩

/-- An interrupt, which leaves a lock that is not locked, and counts on one that is. -/
theorem interrupt (htasks : u.tasks = s.tasks) (hs : u.suspendedBy = s.suspendedBy)
    (htx : u.cTxLock = s.cTxLock ∨ 0 ≤ s.cTxLock ∧ 0 ≤ u.cTxLock)
    (hrx : u.cRxLock = s.cRxLock ∨ 0 ≤ s.cRxLock ∧ 0 ≤ u.cRxLock) :
    Exclusive u := by
  have hkeep {locked : Bool} {l l' : Int} (hl : l' = l ∨ 0 ≤ l ∧ 0 ≤ l') (hlock : Lock locked l) :
      Lock locked l' := by
    rcases hl with rfl | ⟨hpos, hpos'⟩
    · exact hlock
    · cases locked with
      | true => exact hpos'
      | false =>
        have hl : l = -1 := hlock
        omega
  obtain ⟨hown, hlocks⟩ := h
  refine ⟨fun i d hd => ?_, ?_⟩
  · rw [htasks] at hd
    rw [hs]
    exact hown i d hd
  · rw [hs]
    cases hsus : s.suspendedBy with
    | none =>
      rw [hsus] at hlocks
      exact ⟨hkeep htx hlocks.1, hkeep hrx hlocks.2⟩
    | some i =>
      rw [hsus] at hlocks
      obtain ⟨d, hd, hin, hl, hl'⟩ := hlocks
      exact ⟨d, by rw [htasks]; exact hd, hin, hkeep htx hl, hkeep hrx hl'⟩

/-- Behind its `vTaskPlaceOnEventList`, nobody is about to wait. -/
theorem not_placing_of_inside (hc : s.tasks t = some c) (hpc : c.pc.inside) (hne : c.pc ≠ .place) :
    ¬ placing s.tasks b := by
  rintro ⟨i, hi⟩
  cases hd : s.tasks i with
  | none =>
    rw [hd] at hi
    exact Bool.false_ne_true hi
  | some d =>
    rw [hd, Placing, Bool.and_eq_true, beq_iff_eq, beq_iff_eq] at hi
    have hown := h.1 i d hd (by rw [hi.2]; rfl)
    rw [h.1 t c hc hpc, Option.some.injEq] at hown
    subst hown
    rw [hc, Option.some.injEq] at hd
    exact hne (hd ▸ hi.2)

end Exclusive

/-! ## Steps -/

namespace Kernel

/-- What the tasks that send (`b`) or receive wait for. -/
def tokens (s : Kernel n) : Bool → Nat
  | true => uxQueueSpacesAvailable s.queue
  | false => s.queue.uxMessagesWaiting

/-- Their event list. -/
def waiting (s : Kernel n) : Bool → List (Fin n)
  | true => s.xTasksWaitingToSend
  | false => s.xTasksWaitingToReceive

/-- The lock that counts for them. -/
def lock (s : Kernel n) : Bool → Int
  | true => s.cRxLock
  | false => s.cTxLock

/-- No wake of a task that sends (`b`) or receives is lost. -/
def Served (s : Kernel n) (b : Bool) : Prop :=
  Safe (s.tokens b) (s.waiting b) (eager s.tasks b) (placing s.tasks b) (s.lock b).toNat

end Kernel

section

variable {tasks : Fin n → Option Task} {e : Option Task} {j k o : Nat} {w : List (Fin n)}

/-- A task goes on elsewhere. -/
theorem safe_update (h : Safe k w (eager tasks b) (placing tasks b) o) (hj : j ≤ k)
    (he : Eager b (tasks t) → Eager b e) (hp : Placing b e = false) :
    Safe j w (eager (Function.update tasks t e) b) (placing (Function.update tasks t e) b) o := by
  refine h.mono hj (eager_update he) (placing_update fun hp' => ?_)
  rw [hp] at hp'
  exact absurd hp' Bool.false_ne_true

theorem not_placing_update (h : ¬ placing tasks b) (hp : Placing b e = false) :
    ¬ placing (Function.update tasks t e) b := fun hplacing => by
  refine h (placing_update (fun hp' => ?_) hplacing)
  rw [hp] at hp'
  exact absurd hp' Bool.false_ne_true

end

/-- Where the task goes whose attempt was in vain. -/
theorem placing_blocked : Placing b (if c.waits then some { c with pc := .lock } else none) = false := by
  split
  · show (_ && _) = false
    rw [Bool.and_eq_false_iff]
    exact .inr rfl
  · rfl

/-- The attempt of a task that sends (`d`) or receives was in vain. -/
theorem vain_served {d : Bool} (h : s.Served b) (hzero : s.tokens d = 0) (ht : t ∉ s.waiting d)
    (hcall : Eager b (s.tasks t) → d = b) :
    (s.setTask t (if c.waits then some { c with pc := .lock } else none)).Served b := by
  by_cases hd : d = b
  · -- those parked on the list are other tasks
    subst hd
    exact Safe.none h hzero fun i hi => eager_update_ne i (fun he => ht (he ▸ hi)) (h.parked i hi)
  · exact safe_update h (Nat.le_refl _) (fun he => absurd (hcall he) hd) placing_blocked

theorem attempt_served (h : s.Served b) (hno : ¬ placing s.tasks b) (ht : ¬ s.Waits t)
    (hc : s.tasks t = some c) :
    (s.attempt t c).Served b := by
  have hsend : t ∉ s.xTasksWaitingToSend := fun hmem => ht (.inl hmem)
  have hrecv : t ∉ s.xTasksWaitingToReceive := fun hmem => ht (.inr hmem)
  have hno' : ¬ placing (Function.update s.tasks t none) b := not_placing_update hno rfl
  have hcall : Eager b (s.tasks t) → c.call.sends = b := fun he => by
    rw [hc, Eager, Bool.and_eq_true, beq_iff_eq] at he
    exact he.1
  rw [Kernel.attempt]
  split
  · next item front hsends =>
    rw [hsends] at hcall
    dsimp only
    split
    · next hok =>
      obtain ⟨hcount, hlength, hroom⟩ := send_passes hok
      cases b with
      | true =>
        refine Safe.take h hsend ?_ eager_update_ne (placing_update fun hp => absurd hp Bool.false_ne_true)
        show _ - _ < _ - _
        rw [hcount, hlength]
        omega
      | false =>
        exact Safe.give h hno' (Nat.le_of_eq hcount)
          (eager_update fun he => absurd (hcall he).symm Bool.false_ne_true)
    · next hok =>
      have hfull := send_fails (Bool.eq_false_iff.mpr hok)
      exact vain_served (d := true) h (Nat.sub_eq_zero_of_le hfull) hsend hcall
  · next hreceives =>
    rw [hreceives] at hcall
    dsimp only
    split
    · next hok =>
      obtain ⟨hcount, hlength⟩ := receive_passes hok
      cases b with
      | true =>
        refine Safe.give h hno' ?_ (eager_update fun he => absurd (hcall he) Bool.false_ne_true)
        show (xQueueReceive s.queue).2.uxLength - (xQueueReceive s.queue).2.uxMessagesWaiting ≤
          s.queue.uxLength - s.queue.uxMessagesWaiting + 1
        rw [hlength]
        omega
      | false =>
        exact Safe.take h hrecv (Nat.lt_of_succ_le (Nat.le_of_eq hcount)) eager_update_ne
          (placing_update fun hp => absurd hp Bool.false_ne_true)
    · next hok =>
      exact vain_served (d := false) h (receive_fails hok) hrecv hcall
  · next hpeeks =>
    rw [hpeeks] at hcall
    dsimp only
    split
    · next hok =>
      obtain ⟨hcount, hlength⟩ := peek_counts (q := s.queue)
      cases b with
      | true =>
        refine safe_update h ?_ (fun he => absurd (hcall he) Bool.false_ne_true) rfl
        show _ - _ ≤ _ - _
        rw [hcount, hlength]
      | false => exact Safe.handOn h hno' hrecv (Nat.le_of_eq hcount) eager_update_ne
    · next hok =>
      exact vain_served (d := false) h (peek_fails hok) hrecv hcall

theorem not_eager (hc : s.tasks t = some c) (hpc : c.pc.again = false) : ¬ Eager b (s.tasks t) := by
  rw [hc, Eager, hpc, Bool.and_false]
  exact Bool.false_ne_true

theorem run_served (hx : Exclusive s) (h : s.Served b) (hr : s.Runs t) (hc : s.tasks t = some c)
    (expired : Bool) :
    (s.run prio t c expired).Served b := by
  have hcall : Eager b (s.tasks t) = (c.call.sends == b && c.pc.again) := by rw [hc, Eager]
  rw [Kernel.run]
  split
  · next hpc =>
    obtain ⟨hs, ht⟩ := hx.of_outside hr hc (by rw [hpc]; rfl)
    exact attempt_served h (hx.not_placing hs) ht hc
  · next hpc =>
    -- the locks are locked, and nothing is counted
    have hlock (l : Int) : (if l = queueUnlocked then queueLockedUnmodified else l).toNat = l.toNat := by
      split
      · next hl => rw [hl]; rfl
      · rfl
    have hidle := not_eager (b := b) hc (by rw [hpc]; rfl)
    have hmoved := safe_update (t := t) (e := some { c with pc := .check }) h (Nat.le_refl _)
      (fun he => absurd he hidle) (Bool.and_false _)
    cases b with
    | true =>
      show Safe _ _ _ _ (if _ then _ else _ : Int).toNat
      rw [hlock]
      exact hmoved
    | false =>
      show Safe _ _ _ _ (if _ then _ else _ : Int).toNat
      rw [hlock]
      exact hmoved
  · next hpc =>
    have hidle := not_eager (b := b) hc (by rw [hpc]; rfl)
    split
    · exact safe_update h (Nat.le_refl _) (fun he => absurd he hidle) (Bool.and_false _)
    · split
      · next hmissing =>
        by_cases hb : c.call.sends = b
        · -- there is nothing to wait for beside
          have hzero : s.tokens b = 0 := by
            rw [Kernel.missing, hb] at hmissing
            cases b with
            | true => exact Nat.sub_eq_zero_of_le (Nat.le_of_eq (of_decide_eq_true hmissing).symm)
            | false => exact of_decide_eq_true hmissing
          refine Safe.none h hzero fun i hi => eager_update_ne i (fun he => hidle ?_) (h.parked i hi)
          rw [← he]
          exact h.parked i hi
        · refine safe_update h (Nat.le_refl _) (fun he => absurd he hidle) ?_
          rw [Placing, Bool.and_eq_false_iff]
          exact .inl (beq_eq_false_iff_ne.mpr hb)
      · exact safe_update h (Nat.le_refl _) (fun he => absurd he hidle) (Bool.and_false _)
  · next hpc =>
    have hidle := not_eager (b := b) hc (by rw [hpc]; rfl)
    have hready : ∀ i, eager s.tasks b i →
        eager (Function.update s.tasks t (some { c with pc := .unlockTx true })) b i :=
      eager_update fun he => absurd he hidle
    dsimp only
    by_cases hb : c.call.sends = b
    · have hp : placing s.tasks b := ⟨t, by rw [hc, Placing, hb, hpc, beq_self_eq_true]; rfl⟩
      have ht' : eager (Function.update s.tasks t (some { c with pc := .unlockTx true })) b t := by
        rw [eager, Function.update_self, Eager, hb, beq_self_eq_true]
        rfl
      cases b with
      | true =>
        rw [if_pos hb]
        exact Safe.place h hp hidle ht' hready (vListInsert_perm _)
      | false =>
        rw [if_neg (Bool.eq_false_iff.mp hb)]
        exact Safe.place h hp hidle ht' hready (vListInsert_perm _)
    · have hmoved := safe_update (t := t) (e := some { c with pc := .unlockTx true }) h (Nat.le_refl _)
        (fun he => absurd he hidle) (Bool.and_false _)
      cases b with
      | true =>
        rw [if_neg hb]
        exact hmoved
      | false =>
        rw [if_pos (Bool.not_eq_false _ ▸ hb)]
        exact hmoved
  · next again hpc =>
    have hin : c.pc.inside := by rw [hpc]; rfl
    have hno := hx.not_placing_of_inside (b := b) hc hin (by rw [hpc]; exact Pc.noConfusion)
    have hgoes : Eager b (s.tasks t) → Eager b (some { c with pc := .unlockRx again }) := fun he => by
      rw [hcall, hpc] at he
      exact he
    cases b with
    | true => exact safe_update h (Nat.le_refl _) hgoes (Bool.and_false _)
    | false =>
      show Safe _ (unlockLoop _ _) _ _ 0
      rw [unlockLoop_eq]
      exact Safe.settle h (not_placing_update hno (Bool.and_false _)) (eager_update hgoes)
  · next again hpc =>
    have hin : c.pc.inside := by rw [hpc]; rfl
    have hno := hx.not_placing_of_inside (b := b) hc hin (by rw [hpc]; exact Pc.noConfusion)
    have hgoes : Eager b (s.tasks t) → Eager b (some { c with pc := .resume again }) := fun he => by
      rw [hcall, hpc] at he
      exact he
    cases b with
    | true =>
      show Safe _ (unlockLoop _ _) _ _ 0
      rw [unlockLoop_eq]
      exact Safe.settle h (not_placing_update hno (Bool.and_false _)) (eager_update hgoes)
    | false => exact safe_update h (Nat.le_refl _) hgoes (Bool.and_false _)
  · next again hpc =>
    cases again with
    | true =>
      refine safe_update h (Nat.le_refl _) (fun he => ?_) (Bool.and_false _)
      rw [hcall, hpc] at he
      exact he
    | false =>
      have hidle := not_eager (b := b) hc (by rw [hpc]; rfl)
      refine safe_update h (Nat.le_refl _) (fun he => absurd he hidle) ?_
      by_cases hsends : c.call.sends
      · simp only [hsends, if_true, Bool.false_eq_true, if_false]
        rfl
      · simp only [hsends, Bool.false_eq_true, if_false]
        exact Bool.and_false _
  · next hpc =>
    have hidle := not_eager (b := b) hc (by rw [hpc]; rfl)
    refine safe_update h (Nat.le_refl _) (fun he => absurd he hidle) ?_
    split
    · rfl
    · exact Bool.and_false _

/-! ## Interrupts -/

theorem lock_cases {lock lock' : Int} (h : prvIncrementQueueLock n lock = some lock') :
    lock' = lock + 1 ∨ lock' = lock ∧ (n : Int) ≤ lock := by
  rw [prvIncrementQueueLock] at h
  split at h
  · split at h
    · exact .inl (Option.some.inj h).symm
    · exact absurd h.symm (Option.some_ne_none lock')
  · next hle => exact .inr ⟨(Option.some.inj h).symm, Int.not_lt.mp hle⟩

theorem lock_nonneg {lock lock' : Int} (h : prvIncrementQueueLock n lock = some lock') (hpos : 0 ≤ lock) :
    0 ≤ lock' := by
  rcases lock_cases h with rfl | ⟨rfl, -⟩
  · exact Int.add_nonneg hpos (by decide)
  · exact hpos

/-- Something is given while the queue is locked. -/
theorem safe_count {k j : Nat} {w : List (Fin n)} {ready : Fin n → Bool} {P : Prop} {lock lock' : Int}
    (h : Safe k w ready P lock.toNat) (hpos : 0 ≤ lock) (hlock : prvIncrementQueueLock n lock = some lock')
    (hj : j ≤ k + 1) :
    Safe j w ready P lock'.toNat := by
  rcases lock_cases hlock with rfl | ⟨rfl, hle⟩
  · rw [Int.toNat_add hpos (by decide)]
    exact h.owe hj
  · exact h.capped (by rw [Fintype.card_fin]; omega)

namespace Exclusive

variable (h : Exclusive s)
include h

theorem locked_of_ne : (s.cTxLock ≠ queueUnlocked → 0 ≤ s.cTxLock) ∧
    (s.cRxLock ≠ queueUnlocked → 0 ≤ s.cRxLock) := by
  have hpos {locked : Bool} {l : Int} (hl : Lock locked l) (hne : l ≠ queueUnlocked) : 0 ≤ l := by
    cases locked with
    | true => exact hl
    | false => exact absurd hl hne
  have hlocks := h.2
  cases hs : s.suspendedBy with
  | none =>
    rw [hs] at hlocks
    exact ⟨hpos hlocks.1, hpos hlocks.2⟩
  | some t =>
    rw [hs] at hlocks
    obtain ⟨c, -, -, htx, hrx⟩ := hlocks
    exact ⟨hpos htx, hpos hrx⟩

theorem sendFromISR {item : Nat → Byte} {front : Bool} (hu : s.sendFromISR item front = some u) :
    Exclusive u ∧ (s.Served b → u.Served b) := by
  rw [Kernel.sendFromISR] at hu
  split at hu
  · next hok =>
    obtain ⟨hcount, hlength, hroom⟩ := send_passes hok
    -- there is less room
    have hspace {t : Kernel n} (ht : t.queue = (xQueueGenericSend s.queue item (position front)).2) :
        uxQueueSpacesAvailable t.queue ≤ uxQueueSpacesAvailable s.queue := by
      rw [ht, uxQueueSpacesAvailable, uxQueueSpacesAvailable, hcount, hlength]
      omega
    split at hu
    · next hlock =>
      obtain rfl := Option.some.inj hu
      refine ⟨h.interrupt rfl rfl (.inl rfl) (.inl rfl), fun hserved => ?_⟩
      have hno := h.not_placing_of_unlocked (b := false) (.inl hlock)
      cases b with
      | true => exact Safe.mono hserved (hspace rfl) (fun _ => id) id
      | false => exact Safe.give hserved hno (Nat.le_of_eq hcount) fun _ => id
    · next hlock =>
      obtain ⟨lock, hinc, rfl⟩ := Option.map_eq_some_iff.mp hu
      have hpos := h.locked_of_ne.1 hlock
      have hpos' := lock_nonneg hinc hpos
      refine ⟨h.interrupt rfl rfl (.inr ⟨hpos, hpos'⟩) (.inl rfl), fun hserved => ?_⟩
      cases b with
      | true => exact Safe.mono hserved (hspace rfl) (fun _ => id) id
      | false => exact safe_count hserved hpos hinc (Nat.le_of_eq hcount)
  · obtain rfl := Option.some.inj hu
    exact ⟨h, id⟩

theorem receiveFromISR (hu : s.receiveFromISR = some u) : Exclusive u ∧ (s.Served b → u.Served b) := by
  rw [Kernel.receiveFromISR] at hu
  split at hu
  · next hok =>
    obtain ⟨hcount, hlength⟩ := receive_passes hok
    -- there is room for one more
    have hspace {t : Kernel n} (ht : t.queue = (xQueueReceive s.queue).2) :
        uxQueueSpacesAvailable t.queue ≤ uxQueueSpacesAvailable s.queue + 1 := by
      rw [ht, uxQueueSpacesAvailable, uxQueueSpacesAvailable, hlength]
      omega
    have hfewer : (xQueueReceive s.queue).2.uxMessagesWaiting ≤ s.queue.uxMessagesWaiting := by omega
    split at hu
    · next hlock =>
      obtain rfl := Option.some.inj hu
      refine ⟨h.interrupt rfl rfl (.inl rfl) (.inl rfl), fun hserved => ?_⟩
      have hno := h.not_placing_of_unlocked (b := true) (.inr hlock)
      cases b with
      | true => exact Safe.give hserved hno (hspace rfl) fun _ => id
      | false => exact Safe.mono hserved hfewer (fun _ => id) id
    · next hlock =>
      obtain ⟨lock, hinc, rfl⟩ := Option.map_eq_some_iff.mp hu
      have hpos := h.locked_of_ne.2 hlock
      have hpos' := lock_nonneg hinc hpos
      refine ⟨h.interrupt rfl rfl (.inl rfl) (.inr ⟨hpos, hpos'⟩), fun hserved => ?_⟩
      cases b with
      | true => exact safe_count hserved hpos hinc (hspace rfl)
      | false => exact Safe.mono hserved hfewer (fun _ => id) id
  · obtain rfl := Option.some.inj hu
    exact ⟨h, id⟩

end Exclusive

/-! ## Runs -/

theorem attempt_exclusive (h : Exclusive s) (hs : s.suspendedBy = none) : Exclusive (s.attempt t c) := by
  obtain ⟨htx, hrx⟩ := h.unlocked hs
  have hblocked : ∀ d, (if c.waits then some { c with pc := .lock } else none) = some d →
      d.pc.inside = false := by
    intro d hd
    split at hd
    · rw [← Option.some.inj hd]
      rfl
    · exact absurd hd.symm (Option.some_ne_none d)
  have hnone : ∀ d : Task, none = some d → d.pc.inside = false :=
    fun d hd => absurd hd.symm (Option.some_ne_none d)
  rw [Kernel.attempt]
  split <;> dsimp only <;> split
  · exact h.out hs hnone hs rfl htx hrx
  · exact h.out hs hblocked hs rfl htx hrx
  · exact h.out hs hnone hs rfl htx hrx
  · exact h.out hs hblocked hs rfl htx hrx
  · exact h.out hs hnone hs rfl htx hrx
  · exact h.out hs hblocked hs rfl htx hrx

theorem run_exclusive (h : Exclusive s) (hr : s.Runs t) (hc : s.tasks t = some c) (expired : Bool) :
    Exclusive (s.run prio t c expired) := by
  rw [Kernel.run]
  split
  · next hpc =>
    exact attempt_exclusive h (h.of_outside hr hc (by rw [hpc]; rfl)).1
  · next hpc =>
    obtain ⟨hs, -⟩ := h.of_outside hr hc (by rw [hpc]; rfl)
    obtain ⟨htx, hrx⟩ := h.unlocked hs
    refine ⟨fun i d hd hin => ?_, { c with pc := .check }, ?_, rfl, ?_, ?_⟩
    · have hd' : Function.update s.tasks t (some { c with pc := Pc.check }) i = some d := hd
      by_cases hi : i = t
      · rw [hi]
      · rw [Function.update_of_ne hi] at hd'
        have hown := h.1 i d hd' hin
        rw [hs] at hown
        exact absurd hown.symm (Option.some_ne_none i)
    · exact Function.update_self _ _ _
    · show (0 : Int) ≤ if _ then _ else _
      rw [if_pos htx]
    · show (0 : Int) ≤ if _ then _ else _
      rw [if_pos hrx]
  · next hpc =>
    have hin : c.pc.inside := by rw [hpc]; rfl
    obtain ⟨-, htx, hrx⟩ := h.of_inside hc hin
    rw [hpc] at htx hrx
    split
    · exact h.go hc hin (e := { c with pc := .unlockTx false, waits := false }) rfl rfl rfl htx hrx
    · split
      · exact h.go hc hin rfl rfl rfl htx hrx
      · exact h.go hc hin rfl rfl rfl htx hrx
  · next hpc =>
    have hin : c.pc.inside := by rw [hpc]; rfl
    obtain ⟨-, htx, hrx⟩ := h.of_inside hc hin
    rw [hpc] at htx hrx
    dsimp only
    split <;> exact h.go hc hin (e := { c with pc := .unlockTx true }) rfl rfl rfl htx hrx
  · next again hpc =>
    have hin : c.pc.inside := by rw [hpc]; rfl
    obtain ⟨-, -, hrx⟩ := h.of_inside hc hin
    rw [hpc] at hrx
    exact h.go hc hin (e := { c with pc := .unlockRx again }) rfl rfl rfl rfl hrx
  · next again hpc =>
    have hin : c.pc.inside := by rw [hpc]; rfl
    obtain ⟨-, htx, -⟩ := h.of_inside hc hin
    rw [hpc] at htx
    exact h.go hc hin (e := { c with pc := .resume again }) rfl rfl rfl htx rfl
  · next again hpc =>
    have hin : c.pc.inside := by rw [hpc]; rfl
    obtain ⟨hown, htx, hrx⟩ := h.of_inside hc hin
    rw [hpc] at htx hrx
    refine ⟨fun i d hd hdin => ?_, htx, hrx⟩
    have hd' : Function.update s.tasks t (if again then some { c with pc := Pc.attempt }
      else if c.call.sends then none else some { c with pc := Pc.timedOut }) i = some d := hd
    by_cases hi : i = t
    · rw [hi, Function.update_self] at hd'
      split at hd'
      · rw [← Option.some.inj hd'] at hdin
        exact absurd hdin Bool.false_ne_true
      · split at hd'
        · exact absurd hd'.symm (Option.some_ne_none d)
        · rw [← Option.some.inj hd'] at hdin
          exact absurd hdin Bool.false_ne_true
    · rw [Function.update_of_ne hi] at hd'
      have hown' := h.1 i d hd' hdin
      rw [hown, Option.some.injEq] at hown'
      exact absurd hown'.symm hi
  · next hpc =>
    obtain ⟨hs, -⟩ := h.of_outside hr hc (by rw [hpc]; rfl)
    obtain ⟨htx, hrx⟩ := h.unlocked hs
    refine h.out hs (fun d hd => ?_) hs rfl htx hrx
    split at hd
    · exact absurd hd.symm (Option.some_ne_none d)
    · rw [← Option.some.inj hd]
      rfl

theorem next_exclusive (h : Exclusive s) {a : KernelAct n} (hn : (kernel prio).next s a = some u) :
    Exclusive u := by
  cases a with
  | call t c waits =>
    dsimp only [kernel] at hn
    split at hn
    · next hcan =>
      obtain rfl := Option.some.inj hn
      obtain ⟨hr, hnone⟩ := hcan
      have hidle := Option.isNone_iff_eq_none.mp hnone
      -- a task inside is in a call
      have hs : s.suspendedBy = none := by
        rcases hr with hown | ⟨hs, -⟩
        · have hlocks := h.2
          rw [hown] at hlocks
          obtain ⟨d, hd, -⟩ := hlocks
          rw [hidle] at hd
          exact absurd hd.symm (Option.some_ne_none d)
        · exact hs
      obtain ⟨htx, hrx⟩ := h.unlocked hs
      exact h.out hs (fun d hd => by rw [← Option.some.inj hd]; rfl) hs rfl htx hrx
    · exact absurd hn.symm (Option.some_ne_none u)
  | run t expired =>
    dsimp only [kernel] at hn
    split at hn
    · next hr =>
      obtain ⟨c, hc, rfl⟩ := Option.map_eq_some_iff.mp hn
      exact run_exclusive h hr hc expired
    · exact absurd hn.symm (Option.some_ne_none u)
  | timeout t =>
    dsimp only [kernel] at hn
    split at hn
    · obtain rfl := Option.some.inj hn
      exact h.interrupt rfl rfl (.inl rfl) (.inl rfl)
    · exact absurd hn.symm (Option.some_ne_none u)
  | sendFromISR item front => exact (h.sendFromISR (b := true) hn).1
  | receiveFromISR => exact (h.receiveFromISR (b := true) hn).1
  | peekFromISR =>
    obtain rfl := Option.some.inj hn
    exact h.interrupt rfl rfl (.inl rfl) (.inl rfl)
  | reset =>
    dsimp only [kernel] at hn
    split at hn
    · next hs =>
      obtain rfl := Option.some.inj hn
      obtain ⟨htx, hrx⟩ := h.unlocked hs
      rw [Kernel.reset]
      split
      · exact h.interrupt rfl rfl (.inl htx.symm) (.inl hrx.symm)
      · exact h
    · exact absurd hn.symm (Option.some_ne_none u)

/-- Every step serves the tasks that receive, and every one but a reset those that send. -/
theorem next_served (hx : Exclusive s) (h : s.Served b) {a : KernelAct n} (ha : b = true → a ≠ .reset)
    (hn : (kernel prio).next s a = some u) : u.Served b := by
  cases a with
  | call t c waits =>
    dsimp only [kernel] at hn
    split at hn
    · next hcan =>
      obtain rfl := Option.some.inj hn
      have hidle := Option.isNone_iff_eq_none.mp hcan.2
      refine safe_update h (Nat.le_refl _) (fun he => ?_) (Bool.and_false _)
      rw [hidle] at he
      exact absurd he Bool.false_ne_true
    · exact absurd hn.symm (Option.some_ne_none u)
  | run t expired =>
    dsimp only [kernel] at hn
    split at hn
    · next hr =>
      obtain ⟨c, hc, rfl⟩ := Option.map_eq_some_iff.mp hn
      exact run_served hx h hr hc expired
    · exact absurd hn.symm (Option.some_ne_none u)
  | timeout t =>
    dsimp only [kernel] at hn
    split at hn
    · obtain rfl := Option.some.inj hn
      cases b with
      | true => exact Safe.leave h t
      | false => exact Safe.leave h t
    · exact absurd hn.symm (Option.some_ne_none u)
  | sendFromISR item front => exact (hx.sendFromISR hn).2 h
  | receiveFromISR => exact (hx.receiveFromISR hn).2 h
  | peekFromISR =>
    obtain rfl := Option.some.inj hn
    obtain ⟨hcount, hlength⟩ := peek_counts (q := s.queue)
    cases b with
    | true =>
      refine Safe.mono h ?_ (fun _ => id) id
      show (xQueuePeek s.queue).2.uxLength - (xQueuePeek s.queue).2.uxMessagesWaiting ≤ _ - _
      rw [hcount, hlength]
    | false => exact Safe.mono h (Nat.le_of_eq hcount) (fun _ => id) id
  | reset =>
    cases b with
    | true => exact absurd rfl (ha rfl)
    | false =>
      dsimp only [kernel] at hn
      split at hn
      · next hs =>
        obtain rfl := Option.some.inj hn
        rw [Kernel.reset]
        split
        · next q hq =>
          rw [xQueueGenericReset] at hq
          split at hq
          · have hempty : q.uxMessagesWaiting = 0 := by rw [← Option.some.inj hq]
            exact Safe.none h hempty h.parked
          · exact absurd hq.symm (Option.some_ne_none q)
        · exact h
      · exact absurd hn.symm (Option.some_ne_none u)

theorem init_served (hi : (kernel prio).init s) : Exclusive s ∧ s.Served b := by
  obtain ⟨q, rfl⟩ := hi
  refine ⟨⟨fun t c hc => absurd hc.symm (Option.some_ne_none c), rfl, rfl⟩, ?_⟩
  have hempty : Safe (Kernel.tokens (n := n) ⟨q, queueUnlocked, queueUnlocked, [], [], fun _ => none, none⟩ b)
    ([] : List (Fin n))
      (eager (fun _ => none) b) (placing (n := n) (fun _ => none) b) 0 := by
    refine ⟨List.nodup_nil, fun i hi => absurd hi List.not_mem_nil, fun hor => ?_⟩
    rcases hor with hne | ⟨i, hi⟩
    · exact absurd rfl hne
    · exact absurd hi Bool.false_ne_true
  cases b with
  | true => exact hempty
  | false => exact hempty

/-- The task is about to attempt to send (`b`) or to receive. -/
def Kernel.attempting (s : Kernel n) (b : Bool) (t : Fin n) : Bool :=
  match s.tasks t with
  | some c => c.call.sends == b && c.pc == .attempt && t ∉ s.waiting b
  | none => false

/-- While the scheduler runs, the tasks awake are those about to attempt. -/
theorem Kernel.Served.covered (h : s.Served b) (hx : Exclusive s) (hs : s.suspendedBy = none)
    (hw : s.waiting b ≠ []) :
    s.tokens b ≤ (Finset.univ.filter fun t => s.attempting b t).card := by
  have hzero : (s.lock b).toNat = 0 := by
    obtain ⟨htx, hrx⟩ := hx.unlocked hs
    cases b with
    | true =>
      show s.cRxLock.toNat = 0
      rw [hrx]
      rfl
    | false =>
      show s.cTxLock.toNat = 0
      rw [htx]
      rfl
  have hcovered := Safe.covered h (.inl hw)
  rw [hzero] at hcovered
  have hsub : awake (eager s.tasks b) (s.waiting b) ⊆ Finset.univ.filter fun t => s.attempting b t := by
    intro t ht
    obtain ⟨heager, hnot⟩ := mem_awake.mp ht
    rw [Finset.mem_filter, and_iff_right (Finset.mem_univ t), Kernel.attempting]
    rw [eager] at heager
    cases hc : s.tasks t with
    | none =>
      rw [hc] at heager
      exact heager
    | some c =>
      rw [hc, Eager, Bool.and_eq_true] at heager
      obtain ⟨hsends, hagain⟩ := heager
      have hpc : c.pc = .attempt := by
        have hin : ¬ c.pc.inside := fun hin => by
          have hown := hx.1 t c hc hin
          rw [hs] at hown
          exact absurd hown.symm (Option.some_ne_none t)
        exact Pc.attempt_of_again hagain hin
      dsimp only
      rw [hsends, hpc, decide_eq_true hnot]
      rfl
  have hcard := Finset.card_le_card hsub
  rcases hcovered with hall | hle
  · -- there are no tasks at all
    have hempty : Fintype.card (Fin n) = 0 := Nat.le_zero.mp hall
    rw [Fintype.card_fin] at hempty
    subst hempty
    obtain ⟨i, -⟩ := List.exists_mem_of_ne_nil _ hw
    exact i.elim0
  · omega

/-- While the scheduler runs and a task waits for an item, there are no more items than tasks about
to attempt to receive; without resets, likewise for room. -/
theorem no_lost_wakeup (hs : s.suspendedBy = none) :
    ((kernel prio).Reach Lts.any s → s.xTasksWaitingToReceive ≠ [] →
      s.queue.uxMessagesWaiting ≤ (Finset.univ.filter fun t => s.attempting false t).card) ∧
    ((kernel prio).Reach (fun _ a => a ≠ .reset) s → s.xTasksWaitingToSend ≠ [] →
      uxQueueSpacesAvailable s.queue ≤ (Finset.univ.filter fun t => s.attempting true t).card) := by
  constructor
  · intro hr hw
    have hinv : Exclusive s ∧ s.Served false :=
      hr.inv (I := fun s => Exclusive s ∧ s.Served false) (fun _ => init_served)
      fun _ _ _ hi _ hn =>
        ⟨next_exclusive hi.1 hn, next_served hi.1 hi.2 (fun hb => absurd hb Bool.false_ne_true) hn⟩
    exact hinv.2.covered hinv.1 hs hw
  · intro hr hw
    have hinv : Exclusive s ∧ s.Served true :=
      hr.inv (I := fun s => Exclusive s ∧ s.Served true) (fun _ => init_served)
      fun _ _ _ hi ha hn => ⟨next_exclusive hi.1 hn, next_served hi.1 hi.2 (fun _ => ha) hn⟩
    exact hinv.2.covered hinv.1 hs hw

/-- The seven steps of a task that finds the queue empty, with what happens between its check and
its place on the list. -/
def blocks (t : Fin 2) (between : List (KernelAct 2)) : List (KernelAct 2) :=
  .call t .receive true :: List.replicate 3 (.run t false) ++ between ++ List.replicate 4 (.run t false)

/-- A queue of one octet, and tasks that do nothing yet. -/
def idle : Kernel 2 := ⟨⟨⟨fun _ _ => 0, []⟩, 1, 0, 0, 0, 1, 1⟩, -1, -1, [], [], fun _ => none, none⟩

/-- An interrupt sends while the task `u` is about to wait, and `t` waits. -/
def sentBetween (t u : Fin 2) : Kernel 2 :=
  ((kernel fun _ => 0).exec (fun _ _ => true) idle
    (blocks t [] ++ blocks u [.sendFromISR (fun _ => 7) false])).1

/-- The first task is woken when the queue is unlocked. -/
theorem no_lost_wakeup_two :
    (sentBetween 0 1).queue.uxMessagesWaiting = 1 ∧
      1 ≤ (Finset.univ.filter fun t => (sentBetween 0 1).attempting false t).card := by
  have hr : (kernel fun _ => 0).Run Lts.any idle _ (sentBetween 0 1) := Lts.Run.any_of_exec _ _ _ (by decide)
  have hcount : (sentBetween 0 1).queue.uxMessagesWaiting = 1 := by decide
  have hs : (sentBetween 0 1).suspendedBy = none := by decide
  have hle := (no_lost_wakeup hs).1 ⟨idle, _, ⟨_, rfl⟩, hr⟩ (by decide)
  rw [hcount] at hle
  exact ⟨hcount, hle⟩

end Rs485.RtosQueue
