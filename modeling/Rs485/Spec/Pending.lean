import Mathlib.Init

/-!
# Queues that overwrite

What a ring of capacity `d` with two indices is for. The elements since the read position
are pending (`items`); the last `d` of them are still there. A queue that is not
overwritable takes what there is room for. An overwritable one takes everything: of `d`
elements or more the last `d`, and where the pending ones would be `2 * d` or more, the
ring is full afterwards, but with what lay in it from the read position on, and not with
the latest elements.
-/

namespace Rs485.Spec.Pending

variable {α : Type}

/-- The last `d` elements. -/
def last (d : Nat) (xs : List α) : List α := xs.drop (xs.length - d)

structure Queue (α : Type) where
  items : List α
  overwritable : Bool

inductive Op (α : Type)
  | clear
  | setOverwritable (overwritable : Bool)
  | empty
  | full
  | count
  | remaining
  | writeN (xs : List α)
  | readN (n : Nat)
  | peekN (n : Nat)
  | discardN (n : Nat)
  | write (x : α)
  | read
  | peek
  /-- Another party stores elements where there is room. -/
  | fill (xs : List α)
  /-- Another party takes elements that are there. -/
  | drain (n : Nat)
deriving DecidableEq

inductive Result (α : Type)
  | done
  | flag (b : Bool)
  | number (n : Nat)
  | items (xs : List α)
deriving DecidableEq

namespace Queue

variable (d : Nat) (q : Queue α)

/-- The elements are put behind the others as far as there is room. -/
def fill (xs : List α) : Nat × Queue α :=
  let xs := xs.take (d - q.items.length)
  (xs.length, { q with items := q.items ++ xs })

/-- Elements are written. -/
def writeN (xs : List α) : Nat × Queue α :=
  if ¬ q.overwritable then q.fill d xs
  else if d ≤ xs.length then (d, { q with items := last d xs })
  else if 2 * d ≤ q.items.length + xs.length then
    (xs.length, { q with items := (q.items.drop d).take (d - xs.length) ++ xs })
  else (xs.length, { q with items := q.items ++ xs })

/-- One element is written, and nothing keeps it from being the last that fits between the indices. -/
def write (x : α) : Bool × Queue α :=
  if d ≤ q.items.length ∧ ¬ q.overwritable then (false, q)
  else (true, { q with items := if q.items.length + 1 = 2 * d then [] else q.items ++ [x] })

/-- The first elements of those that are there are taken. -/
def readN (n : Nat) : List α × Queue α := ((last d q.items).take n, { q with items := (last d q.items).drop n })

/-- They are looked at; those that are not there are not pending afterwards. -/
def peekN (n : Nat) : List α × Queue α := ((last d q.items).take n, { q with items := last d q.items })

/-- The read position moves on, over elements that are not there too. -/
def discardN (n : Nat) : Nat × Queue α :=
  let k := min n (min d q.items.length)
  (k, { q with items := q.items.drop k })

/-- What an operation gives and leaves. -/
def call : Op α → Result α × Queue α
  | .clear => (.done, { q with items := [] })
  | .setOverwritable b => (.done, { q with overwritable := b })
  | .empty => (.flag q.items.isEmpty, q)
  | .full => (.flag (d ≤ q.items.length), q)
  | .count => (.number (min d q.items.length), q)
  | .remaining => (.number (d - q.items.length), q)
  | .writeN xs => (.number (q.writeN d xs).1, (q.writeN d xs).2)
  | .readN n => (.items (q.readN d n).1, (q.readN d n).2)
  | .peekN n => (.items (q.peekN d n).1, (q.peekN d n).2)
  | .discardN n => (.number (q.discardN d n).1, (q.discardN d n).2)
  | .write x => (.flag (q.write d x).1, (q.write d x).2)
  | .read => (.items (q.readN d 1).1, (q.readN d 1).2)
  | .peek => (.items (q.peekN d 1).1, (q.peekN d 1).2)
  | .fill xs => (.number (q.fill d xs).1, (q.fill d xs).2)
  | .drain n => (.items (q.readN d n).1, (q.readN d n).2)

/-- The results of operations one after the other, and what they leave. -/
def calls : Queue α → List (Op α) → List (Result α) × Queue α
  | q, [] => ([], q)
  | q, op :: ops =>
    let (r, q) := q.call d op
    let (rs, q) := q.calls ops
    (r :: rs, q)

end Queue

variable {d k : Nat} {xs ys : List α}

theorem last_of_le (h : xs.length ≤ d) : last d xs = xs := by
  rw [last, Nat.sub_eq_zero_of_le h, List.drop_zero]

@[simp] theorem length_last : (last d xs).length = min xs.length d := by
  rw [last, List.length_drop]
  omega

theorem last_append (h : ys.length ≤ d) : last d (xs ++ ys) = last (d - ys.length) xs ++ ys := by
  rw [last, last, List.length_append, List.drop_append]
  congr 1
  · congr 1
    omega
  · rw [show xs.length + ys.length - d - xs.length = 0 by omega, List.drop_zero]

theorem last_last (h : k ≤ d) : last k (last d xs) = last k xs := by
  rw [last, length_last, last, List.drop_drop, last]
  congr 1
  omega

theorem last_drop (h : k ≤ xs.length) : last d (xs.drop k) = last (min (xs.length - k) d) xs := by
  rw [last, List.length_drop, List.drop_drop, last]
  congr 1
  omega

end Rs485.Spec.Pending
