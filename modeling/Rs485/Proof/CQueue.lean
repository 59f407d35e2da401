import Rs485.Impl.CQueue
import Rs485.Spec.Fifo

/-!
# The ring buffer is a queue

`contents` is the list a queue stands for. A queue is well formed (`WellFormed`)
after `cqueue_init_static`, and both operations keep it so; `cqueue_send` puts the
item behind the contents, `cqueue_receive` takes their first element: what they do to the contents
is what `Fifo` does to a list.
-/

namespace Rs485.Utils

open Rs485.Framework Rs485.Spec

variable {α : Type}

/-- The elements of a queue, first one first. -/
def contents (q : CQueue α) : List α :=
  (List.range q.count).map fun i => q.buff.data () ((q.tail + i) % q.len)

@[simp] theorem length_contents (q : CQueue α) : (contents q).length = q.count := by simp [contents]

/-- What the operations keep: the indices lie in the buffer, `count` places apart. -/
structure WellFormed (q : CQueue α) : Prop where
  count : q.count ≤ q.len
  tail : 0 < q.len → q.tail < q.len
  head : (q.tail + q.count) % q.len = q.head

theorem wellFormed_init (buff : Mem Unit α) (len : Nat) : WellFormed (cqueueInitStatic buff len) :=
  ⟨Nat.zero_le _, fun h => h, by simp [cqueueInitStatic]⟩

@[simp] theorem contents_init (buff : Mem Unit α) (len : Nat) :
    contents (cqueueInitStatic buff len) = [] := rfl

/-- Places less than a round apart have different indices. -/
theorem index_ne {t i n len : Nat} (hi : i < n) (hn : n < len) : (t + i) % len ≠ (t + n) % len := by
  intro h
  have hzero : (t + n - (t + i)) % len = 0 := Nat.sub_mod_eq_zero_of_mod_eq h.symm
  rw [Nat.mod_eq_of_lt (by omega)] at hzero
  omega

section

variable {q : CQueue α}

theorem WellFormed.head_lt (h : WellFormed q) (hl : 0 < q.len) : q.head < q.len :=
  h.head ▸ Nat.mod_lt _ hl

/-- A full queue refuses the item and stays as it is. -/
theorem send_full (h : q.count = q.len) (item : α) : cqueueSend q item = (false, q) := by
  simp [cqueueSend, cqueueIsFull, h]

/-- Any other queue takes it. -/
theorem send_room (h : q.count ≠ q.len) (item : α) :
    cqueueSend q item =
      (true, { q with
        buff := q.buff.store ⟨(), q.head⟩ item
        head := (q.head + 1) % q.len
        count := q.count + 1 }) := by
  simp [cqueueSend, cqueueIsFull, h]

theorem WellFormed.send (h : WellFormed q) (item : α) : WellFormed (cqueueSend q item).2 := by
  by_cases hfull : q.count = q.len
  · rw [send_full hfull]
    exact h
  · rw [send_room hfull]
    refine ⟨Nat.lt_of_le_of_ne h.count hfull, h.tail, ?_⟩
    rw [← h.head, Nat.mod_add_mod, Nat.add_assoc]

/-- The item is put behind the contents. -/
theorem WellFormed.contents_send (h : WellFormed q) (hroom : q.count ≠ q.len) (item : α) :
    contents (cqueueSend q item).2 = contents q ++ [item] := by
  have hlt : q.count < q.len := Nat.lt_of_le_of_ne h.count hroom
  rw [send_room hroom, contents, List.range_succ, List.map_append, List.map_singleton]
  congr 1
  · refine List.map_congr_left fun i hi => ?_
    have hne := index_ne (t := q.tail) (List.mem_range.mp hi) hlt
    rw [h.head] at hne
    simp [Mem.store_data, hne]
  · simp [Mem.store_data, h.head]

/-- An empty queue gives nothing and stays as it is. -/
theorem receive_empty (h : q.count = 0) : cqueueReceive q = (none, q) := by
  simp [cqueueReceive, cqueueIsEmpty, h]

/-- Any other queue gives the element at `tail`. -/
theorem receive_some (h : q.count ≠ 0) :
    cqueueReceive q =
      (some (q.buff.data () q.tail), { q with
        buff := q.buff.touch ⟨(), q.tail⟩
        tail := (q.tail + 1) % q.len
        count := q.count - 1 }) := by
  simp [cqueueReceive, cqueueIsEmpty, h]

theorem WellFormed.receive (h : WellFormed q) : WellFormed (cqueueReceive q).2 := by
  by_cases hempty : q.count = 0
  · rw [receive_empty hempty]
    exact h
  · rw [receive_some hempty]
    refine ⟨Nat.le_trans (Nat.sub_le _ _) h.count, fun hl => Nat.mod_lt _ hl, ?_⟩
    dsimp only
    rw [Nat.mod_add_mod, Nat.add_assoc, Nat.add_sub_cancel' (by omega), h.head]

/-- The element given is the first one, and the others stay. -/
theorem WellFormed.contents_receive (h : WellFormed q) (hne : q.count ≠ 0) :
    contents q = q.buff.data () q.tail :: contents (cqueueReceive q).2 := by
  have hl : 0 < q.len := Nat.lt_of_lt_of_le (Nat.pos_of_ne_zero hne) h.count
  obtain ⟨n, hn⟩ : ∃ n, q.count = n + 1 := ⟨q.count - 1, by omega⟩
  simp only [receive_some hne, contents, hn, Nat.add_sub_cancel, List.range_succ_eq_map, List.map_cons,
    List.map_map]
  congr 1
  · rw [Nat.add_zero, Nat.mod_eq_of_lt (h.tail hl)]
  · refine List.map_congr_left fun i _ => ?_
    simp only [Function.comp_apply, Mem.touch_data, Nat.mod_add_mod]
    congr 2
    omega

/-- `cqueue_send` on the contents. -/
theorem WellFormed.send_fifo (h : WellFormed q) (item : α) :
    (Fifo.send q.len (contents q) item = none ∧ cqueueSend q item = (false, q)) ∨
      (Fifo.send q.len (contents q) item = some (contents (cqueueSend q item).2) ∧
        (cqueueSend q item).1 = true) := by
  by_cases hfull : q.count = q.len
  · exact Or.inl ⟨Fifo.send_eq_none.mpr (by rw [length_contents, hfull]), send_full hfull item⟩
  · refine Or.inr ⟨Fifo.send_eq_some.mpr ⟨by rwa [length_contents], (h.contents_send hfull item).symm⟩, ?_⟩
    rw [send_room hfull]

/-- `cqueue_receive` on the contents. -/
theorem WellFormed.receive_fifo (h : WellFormed q) :
    (Fifo.receive (contents q) = none ∧ cqueueReceive q = (none, q)) ∨
      (∃ x, Fifo.receive (contents q) = some (x, contents (cqueueReceive q).2) ∧
        (cqueueReceive q).1 = some x) := by
  by_cases hempty : q.count = 0
  · refine Or.inl ⟨Fifo.receive_eq_none.mpr ?_, receive_empty hempty⟩
    rw [← List.length_eq_zero_iff, length_contents, hempty]
  · refine Or.inr ⟨_, Fifo.receive_eq_some.mpr (h.contents_receive hempty), ?_⟩
    rw [receive_some hempty]

end

end Rs485.Utils
