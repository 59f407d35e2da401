import Mathlib.Init

/-!
# Bounded queues with two ends

What a queue of `d` items is for: items are sent to its back or to its front while there is room, and
received from its front. An item may be sent over the one item of a queue of length 1.
-/

namespace Rs485.Spec.Deque

variable {α β : Type}

/-- An operation, which does not wait. -/
inductive Op (α : Type)
  | sendToBack (x : α)
  | sendToFront (x : α)
  | overwrite (x : α)
  | receive
  | peek
  | reset
  | messagesWaiting
  | spacesAvailable

/-- The same operation on other items. -/
def Op.map (f : α → β) : Op α → Op β
  | .sendToBack x => .sendToBack (f x)
  | .sendToFront x => .sendToFront (f x)
  | .overwrite x => .overwrite (f x)
  | .receive => .receive
  | .peek => .peek
  | .reset => .reset
  | .messagesWaiting => .messagesWaiting
  | .spacesAvailable => .spacesAvailable

inductive Result (α : Type)
  | flag (b : Bool)
  | item (x : Option α)
  | number (n : Nat)
deriving DecidableEq

/-- What an operation on a queue of `d` items gives and leaves. -/
def call (d : Nat) (xs : List α) : Op α → Result α × List α
  | .sendToBack x => if xs.length < d then (.flag true, xs ++ [x]) else (.flag false, xs)
  | .sendToFront x => if xs.length < d then (.flag true, x :: xs) else (.flag false, xs)
  | .overwrite x => (.flag true, [x])
  | .receive => (.item xs.head?, xs.tail)
  | .peek => (.item xs.head?, xs)
  | .reset => (.flag true, [])
  | .messagesWaiting => (.number xs.length, xs)
  | .spacesAvailable => (.number (d - xs.length), xs)

/-- The results of operations one after the other, and what they leave. -/
def calls (d : Nat) : List α → List (Op α) → List (Result α) × List α
  | xs, [] => ([], xs)
  | xs, op :: ops =>
    let (r, xs) := call d xs op
    let (rs, xs) := calls d xs ops
    (r :: rs, xs)

end Rs485.Spec.Deque
