import Rs485.Framework.Ring
import Rs485.Impl.RtosQueue

/-!
# The queues of the kernel

A queue holds the items of the abstract queue in a window of its storage (`Holds`). Every order of
attempts gives what the abstract queue gives, and no access is outside the storage
(`attempts_eq`). The pointers move by one item around the storage (`advance`, `retreat`); a queue of
items without octets is no exception, as all its pointers stay zero.
-/

namespace Rs485.RtosQueue

open Rs485.Framework Rs485.Framework.Ring Rs485.Spec

variable {d z r k : Nat} {m : Mem Unit Byte} {q : Queue} {xs : List (List Byte)} {item : Nat → Byte}

/-! ## Items in the storage -/

@[simp] theorem length_octets (z : Nat) (item : Nat → Byte) : (octets z item).length = z := by
  rw [octets, List.length_map, List.length_range]

/-- The items of a storage. -/
def slots (z : Nat) (m : Mem Unit Byte) (i : Nat) : List Byte := m.slice ⟨(), i * z⟩ z

theorem slots_touchN {p : Ptr Unit} {n : Nat} : slots z (m.touchN p n) = slots z m := by
  funext i
  exact Mem.slice_touchN m _ p n z

theorem slots_storeList {x : List Byte} (hx : x.length = z) :
    slots z (m.storeList ⟨(), k * z⟩ x) = Function.update (slots z m) k x := by
  subst hx
  funext i
  by_cases hi : i = k
  · subst hi
    rw [Function.update_self]
    exact Mem.slice_storeList
  · rw [Function.update_of_ne hi]
    refine Mem.slice_storeList_of_disjoint fun _ => ?_
    rcases Nat.lt_or_gt_of_ne hi with hlt | hgt
    · right
      have hle := Nat.mul_le_mul_right x.length hlt
      rwa [Nat.succ_mul] at hle
    · left
      have hle := Nat.mul_le_mul_right x.length hgt
      rwa [Nat.succ_mul] at hle

/-- An item lies in the storage. -/
theorem slot_le (hk : k < d) : k * z + z ≤ d * z := by
  rw [← Nat.succ_mul]
  exact Nat.mul_le_mul_right z hk

/-! ## Pointers -/

theorem advance (hk : k < d) : (if k * z + z ≥ d * z then 0 else k * z + z) = (k + 1) % d * z := by
  rcases Nat.eq_zero_or_pos z with rfl | hz
  · simp
  rw [← Nat.succ_mul]
  by_cases hd : k + 1 = d
  · subst hd
    rw [if_pos (Nat.le_refl _), Nat.mod_self, Nat.zero_mul]
  · have hlt : k + 1 < d := by omega
    have hmul : k.succ * z < d * z := Nat.mul_lt_mul_of_pos_right hlt hz
    rw [if_neg (Nat.not_le_of_lt hmul), Nat.mod_eq_of_lt hlt]

theorem retreat (hk : k < d) :
    (if ((k * z : Nat) : Int) - z < 0 then d * z - z else (((k * z : Nat) : Int) - z).toNat) =
    (k + (d - 1)) % d * z := by
  cases k with
  | zero =>
    rw [Nat.zero_add, Nat.mod_eq_of_lt (by omega), Nat.sub_mul, Nat.one_mul, Nat.zero_mul]
    rcases Nat.eq_zero_or_pos z with rfl | hz
    · simp
    · rw [if_pos (by omega)]
  | succ k =>
    rw [show k + 1 + (d - 1) = k + d by omega, Nat.add_mod_right, Nat.mod_eq_of_lt (by omega), Nat.succ_mul,
      if_neg (by omega)]
    omega

/-! ## What a queue holds -/

/-- The queue of `d` items of `z` octets holds `xs` from the item numbered `r` on. -/
structure Holds (d z : Nat) (q : Queue) (r : Nat) (xs : List (List Byte)) : Prop where
  pos : 0 < d
  fits : z ≤ sizeMax / d
  length : q.uxLength = d
  size : q.uxItemSize = z
  tail : q.pcTail = d * z
  write : q.pcWriteTo = (r + xs.length) % d * z
  read : q.pcReadFrom = (r + (d - 1)) % d * z
  count : q.uxMessagesWaiting = xs.length
  room : xs.length ≤ d
  items : window d (slots z q.storage) r xs.length = xs
  bounds : q.storage.Within () (d * z)

theorem holds_reset (hd : 0 < d) (hfits : z ≤ sizeMax / d) (hlength : q.uxLength = d) (hsize : q.uxItemSize = z)
    (hbounds : q.storage.Within () (d * z)) : ∃ t, xQueueGenericReset q = some t ∧ Holds d z t 0 [] := by
  have hpass : q.uxLength ≥ 1 ∧ sizeMax / q.uxLength ≥ q.uxItemSize := by
    rw [hlength, hsize]
    exact ⟨hd, hfits⟩
  rw [xQueueGenericReset, if_pos hpass]
  refine ⟨_, rfl, hd, hfits, hlength, hsize, ?_, ?_, ?_, rfl, Nat.zero_le d, rfl, hbounds⟩
  · show q.uxLength * q.uxItemSize = d * z
    rw [hlength, hsize]
  · rw [List.length_nil, Nat.add_zero, Nat.zero_mod, Nat.zero_mul]
  · show (q.uxLength - 1) * q.uxItemSize = _
    rw [hlength, hsize, Nat.zero_add, Nat.mod_eq_of_lt (by omega)]

theorem xQueueGenericCreate_holds {sizeofQueue : Nat} (hm : m.log = [])
    (hq : xQueueGenericCreate sizeofQueue (some m) d z = some q) : Holds d z q 0 [] := by
  rw [xQueueGenericCreate] at hq
  split at hq
  · next h =>
    obtain ⟨hd, hfits, -⟩ := h
    obtain ⟨t, ht, hholds⟩ := holds_reset (q := ⟨m, 0, 0, 0, 0, d, z⟩) hd hfits rfl rfl fun i hi => by
      change _ ∈ m.log at hi
      rw [hm] at hi
      exact absurd hi List.not_mem_nil
    rw [Option.map_some, Option.some.injEq, prvInitialiseNewQueue, ht, Option.getD_some] at hq
    rwa [← hq]
  · exact absurd hq.symm (Option.some_ne_none q)

namespace Holds

variable (h : Holds d z q r xs)
include h

/-! ## Copies -/

/-- A copy to the back. -/
theorem copy_back (item : Nat → Byte) :
    prvCopyDataToQueue q item .sendToBack =
      { q with
        storage := q.storage.storeList ⟨(), (r + xs.length) % d * z⟩ (octets z item)
        pcWriteTo := (r + (xs.length + 1)) % d * z
        uxMessagesWaiting := xs.length + 1 } := by
  have hnext := advance (z := z) (Nat.mod_lt (r + xs.length) h.pos)
  rw [Nat.mod_add_mod, Nat.add_assoc] at hnext
  rw [prvCopyDataToQueue, h.size, h.count]
  by_cases hz : z = 0
  · subst hz
    rw [if_pos rfl, octets, List.range_zero, List.map_nil, Mem.storeList, Nat.mul_zero,
      ← Nat.mul_zero (_ % d), ← h.write]
  · rw [if_neg hz, if_pos rfl, h.write, h.tail]
    dsimp only
    rw [hnext]

/-- A copy to the front, of an item that is counted. -/
theorem copy_front {xPosition : Position} (hp : xPosition ≠ .sendToBack) (hz : xPosition = .overwrite → 0 < z)
    (item : Nat → Byte) :
    prvCopyDataToQueue q item xPosition =
      { q with
        storage := q.storage.storeList ⟨(), (r + (d - 1)) % d * z⟩ (octets z item)
        pcReadFrom := (r + (d - 1) + (d - 1)) % d * z
        uxMessagesWaiting := if xPosition = .overwrite ∧ 0 < xs.length then xs.length else xs.length + 1 } := by
  have hnext := retreat (z := z) (Nat.mod_lt (r + (d - 1)) h.pos)
  rw [Nat.mod_add_mod] at hnext
  rw [prvCopyDataToQueue, h.size, h.count]
  by_cases hzero : z = 0
  · subst hzero
    have hno : xPosition ≠ .overwrite := fun ho => absurd (hz ho) (Nat.lt_irrefl 0)
    rw [if_pos rfl, octets, List.range_zero, List.map_nil, Mem.storeList, if_neg (mt And.left hno),
      Nat.mul_zero, ← Nat.mul_zero ((r + (d - 1)) % d), ← h.read]
  · rw [if_neg hzero, if_neg hp, h.read, h.tail]
    dsimp only
    rw [hnext]
    split
    · next ho => rw [Nat.sub_add_cancel ho.2]
    · rfl

/-- A copy from the front, and the pointer behind it. -/
theorem copy_from :
    prvCopyDataFromQueue q =
      (slots z q.storage (r % d),
        { q with pcReadFrom := r % d * z, storage := q.storage.touchN ⟨(), r % d * z⟩ z }) := by
  have hnext := advance (z := z) (Nat.mod_lt (r + (d - 1)) h.pos)
  rw [Nat.mod_add_mod, Nat.add_assoc, Nat.sub_add_cancel h.pos, Nat.add_mod_right] at hnext
  rw [prvCopyDataFromQueue, h.size]
  by_cases hz : z = 0
  · subst hz
    have hread := h.read
    rw [Nat.mul_zero] at hread
    have hsize := h.size
    have hq : q = { q with pcReadFrom := r % d * 0, uxItemSize := 0 } := by
      cases q
      dsimp only at hread hsize ⊢
      rw [Nat.mul_zero, hread, hsize]
    rw [if_neg (not_not.mpr rfl)]
    exact congrArg (Prod.mk []) hq
  · rw [if_pos hz, h.read, h.tail]
    dsimp only
    rw [hnext]
    rfl

/-! ## Operations -/

theorem bounds_store {i : Nat} {x : List Byte} (hx : x.length = z) :
    (q.storage.storeList ⟨(), i % d * z⟩ x).Within () (d * z) := by
  refine Mem.within_storeList (fun _ => ?_) h.bounds
  rw [hx]
  exact slot_le (Nat.mod_lt i h.pos)

theorem sendToBack (hroom : xs.length < d) (item : Nat → Byte) :
    Holds d z (prvCopyDataToQueue q item .sendToBack) r (xs ++ [octets z item]) := by
  rw [h.copy_back]
  have hlen : (xs ++ [octets z item]).length = xs.length + 1 := List.length_append
  refine ⟨h.pos, h.fits, h.length, h.size, h.tail, ?_, h.read, hlen.symm, ?_, ?_,
    h.bounds_store (length_octets z item)⟩
  · rw [hlen]
  · rw [hlen]
    exact hroom
  · dsimp only
    rw [hlen, slots_storeList (length_octets z item)]
    -- the item is put behind the window
    have hput : window d (put d (slots z q.storage) (r + xs.length) [octets z item]) r (xs.length + 1) =
        window d (slots z q.storage) r xs.length ++ [octets z item] := window_put_append hroom
    rwa [h.items] at hput

/-- The window one item further down, with the first `n` items behind a new one. -/
theorem window_front {n : Nat} (hn : n ≤ xs.length) (hroom : n < d) (x : List Byte) :
    window d (Function.update (slots z q.storage) ((r + (d - 1)) % d) x) (r + (d - 1)) (n + 1) =
      x :: xs.take n := by
  have hpos := h.pos
  rw [window_succ, Function.update_self, Nat.add_assoc, Nat.sub_add_cancel hpos,
    window_mod (Nat.add_mod_right r d)]
  have hput : window d (put d (slots z q.storage) (r + (d - 1)) [x]) r n = window d (slots z q.storage) r n :=
    window_put_of_le (by omega) (by rw [List.length_singleton]; omega)
  have htake : (window d (slots z q.storage) r xs.length).take n = window d (slots z q.storage) r n :=
    take_window hn
  rw [h.items] at htake
  exact congrArg _ (hput.trans htake.symm)

theorem sendToFront (hroom : xs.length < d) (item : Nat → Byte) :
    Holds d z (prvCopyDataToQueue q item .sendToFront) (r + (d - 1)) (octets z item :: xs) := by
  have hpos := h.pos
  have hno : Position.sendToFront ≠ .overwrite := by decide
  rw [h.copy_front (by decide) fun ho => absurd ho hno, if_neg fun ho => hno ho.1]
  refine ⟨h.pos, h.fits, h.length, h.size, h.tail, ?_, rfl, rfl, hroom, ?_,
    h.bounds_store (length_octets z item)⟩
  · rw [List.length_cons, show r + (d - 1) + (xs.length + 1) = r + xs.length + d by omega, Nat.add_mod_right]
    exact h.write
  · dsimp only
    rw [slots_storeList (length_octets z item), List.length_cons, h.window_front (Nat.le_refl _) hroom,
      List.take_length]

theorem overwrite (hd : d = 1) (hz : 0 < z) (item : Nat → Byte) :
    Holds d z (prvCopyDataToQueue q item .overwrite) (r + (d - 1)) [octets z item] := by
  have hroom := h.room
  have hcount : (if Position.overwrite = .overwrite ∧ 0 < xs.length then xs.length else xs.length + 1) = 1 := by
    by_cases hsome : 0 < xs.length
    · rw [if_pos ⟨rfl, hsome⟩]
      omega
    · rw [if_neg fun ho => hsome ho.2]
      omega
  rw [h.copy_front (by decide) fun _ => hz, hcount]
  refine ⟨h.pos, h.fits, h.length, h.size, h.tail, ?_, rfl, rfl, h.pos, ?_,
    h.bounds_store (length_octets z item)⟩
  · rw [h.write, hd, Nat.mod_one, Nat.mod_one]
  · dsimp only
    rw [slots_storeList (length_octets z item)]
    exact h.window_front (Nat.zero_le _) h.pos _

end Holds

section

variable {x : List Byte} (h : Holds d z q r (x :: xs))
include h

theorem Holds.head : slots z q.storage (r % d) = x := by
  have hitems := h.items
  rw [List.length_cons, window_succ] at hitems
  exact List.head_eq_of_cons_eq hitems

theorem Holds.bounds_touch : (q.storage.touchN ⟨(), r % d * z⟩ z).Within () (d * z) :=
  Mem.within_touchN (fun _ => slot_le (Nat.mod_lt r h.pos)) h.bounds

theorem Holds.receive : (xQueueReceive q).1 = some x ∧ Holds d z (xQueueReceive q).2 (r + 1) xs := by
  have hpos := h.pos
  have hroom := h.room
  rw [xQueueReceive, h.count, if_pos (show (x :: xs).length > 0 from Nat.succ_pos _), h.copy_from]
  refine ⟨congrArg some h.head, h.pos, h.fits, h.length, h.size, h.tail, ?_, ?_, rfl, Nat.le_of_succ_le hroom,
    ?_, h.bounds_touch⟩
  · rw [Nat.add_assoc, Nat.add_comm 1]
    exact h.write
  · dsimp only
    rw [show r + 1 + (d - 1) = r + d by omega, Nat.add_mod_right]
  · have hitems := h.items
    rw [List.length_cons, window_succ] at hitems
    dsimp only
    rw [slots_touchN]
    exact List.tail_eq_of_cons_eq hitems

theorem Holds.peek : (xQueuePeek q).1 = some x ∧ Holds d z (xQueuePeek q).2 r (x :: xs) := by
  rw [xQueuePeek, h.count, if_pos (show (x :: xs).length > 0 from Nat.succ_pos _), h.copy_from]
  refine ⟨congrArg some h.head, h.pos, h.fits, h.length, h.size, h.tail, h.write, h.read, h.count, h.room, ?_,
    h.bounds_touch⟩
  dsimp only
  rw [slots_touchN]
  exact h.items

end

/-! ## Orders of attempts -/

/-- An item is sent over another one in a queue of length 1 only, whose items are not empty. -/
def Allowed (d z : Nat) : Deque.Op (Nat → Byte) → Prop
  | .overwrite _ => d = 1 ∧ 0 < z
  | _ => True

/-- An operation gives and leaves what it does on the abstract queue. -/
theorem Holds.call (h : Holds d z q r xs) (op : Deque.Op (Nat → Byte)) (hop : Allowed d z op) :
    (q.call op).1 = (Deque.call d xs (op.map (octets z))).1 ∧
      ∃ r, Holds d z (q.call op).2 r (Deque.call d xs (op.map (octets z))).2 := by
  cases op with
  | sendToBack item =>
    rw [Queue.call, xQueueGenericSend, h.count, h.length, Deque.Op.map, Deque.call]
    by_cases hroom : xs.length < d
    · rw [if_pos (.inl hroom), if_pos hroom]
      exact ⟨rfl, r, h.sendToBack hroom item⟩
    · rw [if_neg (by simp [hroom]), if_neg hroom]
      exact ⟨rfl, r, h⟩
  | sendToFront item =>
    rw [Queue.call, xQueueGenericSend, h.count, h.length, Deque.Op.map, Deque.call]
    by_cases hroom : xs.length < d
    · rw [if_pos (.inl hroom), if_pos hroom]
      exact ⟨rfl, _, h.sendToFront hroom item⟩
    · rw [if_neg (by simp [hroom]), if_neg hroom]
      exact ⟨rfl, r, h⟩
  | overwrite item =>
    rw [Queue.call, xQueueGenericSend, if_pos (.inr rfl), Deque.Op.map, Deque.call]
    exact ⟨rfl, _, h.overwrite hop.1 hop.2 item⟩
  | receive =>
    rw [Queue.call, Deque.Op.map, Deque.call]
    cases xs with
    | nil =>
      rw [xQueueReceive, h.count, if_neg (show ¬ List.length [] > 0 from Nat.lt_irrefl 0)]
      exact ⟨rfl, r, h⟩
    | cons x xs => exact ⟨congrArg _ h.receive.1, _, h.receive.2⟩
  | peek =>
    rw [Queue.call, Deque.Op.map, Deque.call]
    cases xs with
    | nil =>
      rw [xQueuePeek, h.count, if_neg (show ¬ List.length [] > 0 from Nat.lt_irrefl 0)]
      exact ⟨rfl, r, h⟩
    | cons x xs => exact ⟨congrArg _ h.peek.1, _, h.peek.2⟩
  | reset =>
    obtain ⟨t, ht, hholds⟩ := holds_reset h.pos h.fits h.length h.size h.bounds
    rw [Queue.call, xQueueReset, ht, Deque.Op.map, Deque.call]
    exact ⟨rfl, 0, hholds⟩
  | messagesWaiting => exact ⟨congrArg _ h.count, r, h⟩
  | spacesAvailable =>
    rw [Queue.call, uxQueueSpacesAvailable, h.length, h.count]
    exact ⟨rfl, r, h⟩

theorem Holds.calls (h : Holds d z q r xs) (ops : List (Deque.Op (Nat → Byte)))
    (hops : ∀ op ∈ ops, Allowed d z op) :
    (q.calls ops).1 = (Deque.calls d xs (ops.map (·.map (octets z)))).1 ∧
      ∃ r, Holds d z (q.calls ops).2 r (Deque.calls d xs (ops.map (·.map (octets z)))).2 := by
  induction ops generalizing q r xs with
  | nil => exact ⟨rfl, r, h⟩
  | cons op ops ih =>
    obtain ⟨hresult, r', hleft⟩ := h.call op (hops op List.mem_cons_self)
    obtain ⟨hresults, hend⟩ := ih hleft fun op hop => hops op (List.mem_cons_of_mem _ hop)
    exact ⟨congrArg₂ List.cons hresult hresults, hend⟩

/-- From its creation on, a queue gives what the abstract queue gives, whatever the order of the attempts. -/
theorem attempts_eq {sizeofQueue : Nat} (hm : m.log = [])
    (hq : xQueueGenericCreate sizeofQueue (some m) d z = some q)
    (ops : List (Deque.Op (Nat → Byte))) (hops : ∀ op ∈ ops, Allowed d z op) :
    (q.calls ops).1 = (Deque.calls d [] (ops.map (·.map (octets z)))).1 ∧
      (q.calls ops).2.storage.Within () (d * z) := by
  obtain ⟨hresults, _, hend⟩ := (xQueueGenericCreate_holds hm hq).calls ops hops
  exact ⟨hresults, hend.bounds⟩

/-- A storage of zeros. -/
def zeros : Mem Unit Byte := ⟨fun _ _ => 0, []⟩

/-- An item of two equal octets. -/
def twice (b : Byte) : Nat → Byte := fun _ => b

/-- Two items of two octets, from both ends and around the storage. -/
theorem attempts_eq_two :
    ∃ q, xQueueGenericCreate 80 (some zeros) 2 2 = some q ∧
      (q.calls [.sendToBack (twice 1), .sendToFront (twice 2), .sendToFront (twice 3), .receive,
        .sendToBack (twice 4), .receive, .peek]).1 =
        [.flag true, .flag true, .flag false, .item (some [2, 2]), .flag true, .item (some [1, 1]),
          .item (some [4, 4])] := by
  have hm : zeros.log = [] := rfl
  have hq : xQueueGenericCreate 80 (some zeros) 2 2 = some ⟨zeros, 4, 0, 2, 0, 2, 2⟩ := rfl
  exact ⟨_, hq, (attempts_eq hm hq _ (by simp [Allowed])).1.trans (by decide)⟩

end Rs485.RtosQueue
