import Mathlib.Init

/-!
# Bounded queues

What a ring buffer is for: a list of at most `cap` elements. An element is put
behind the others if there is room, and the first one is taken.
-/

namespace Rs485.Spec.Fifo

variable {α : Type}

/-- An element is put behind the others, if there are fewer than `cap`. -/
def send (cap : Nat) (xs : List α) (x : α) : Option (List α) :=
  if xs.length = cap then none else some (xs ++ [x])

/-- The first element is taken. -/
def receive : List α → Option (α × List α)
  | [] => none
  | x :: xs => some (x, xs)

section

variable {cap : Nat} {xs ys : List α} {x : α}

theorem send_eq_none : send cap xs x = none ↔ xs.length = cap := by
  rw [send]
  split <;> simp [*]

theorem send_eq_some : send cap xs x = some ys ↔ xs.length ≠ cap ∧ xs ++ [x] = ys := by
  rw [send]
  split <;> simp [*]

theorem receive_eq_none : receive xs = none ↔ xs = [] := by
  cases xs <;> simp [receive]

theorem receive_eq_some : receive xs = some (x, ys) ↔ xs = x :: ys := by
  cases xs <;> simp [receive]

end

end Rs485.Spec.Fifo
