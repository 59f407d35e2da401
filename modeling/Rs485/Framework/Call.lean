import Mathlib.Init

/-!
# Calling stateful functions

A function of the source that reads and writes memory is a `StateM` program
over the state it touches; `call x s` is what it returns from `s` and the
state it leaves. The simp set takes `call` through the constructs a function
body is made of, so that a proof follows a body statement by statement.

`Meets P x Q` says that from every state satisfying `P`, `x` returns and
leaves what `Q` asks; the programs are total, so there is no termination to
prove. `Preserves I x` is the case of an invariant.
-/

namespace Rs485.Framework

variable {σ α β : Type}

/-- What `x` returns when it is called in the state `s`, and the state it leaves. -/
def call (x : StateM σ α) (s : σ) : α × σ := (x.run s).run

@[simp] theorem call_pure (a : α) (s : σ) : call (pure a) s = (a, s) := rfl

@[simp] theorem call_bind (x : StateM σ α) (f : α → StateM σ β) (s : σ) :
    call (x >>= f) s = call (f (call x s).1) (call x s).2 := rfl

@[simp] theorem call_get (s : σ) : call get s = (s, s) := rfl

@[simp] theorem call_modify (f : σ → σ) (s : σ) : call (modify f : StateM σ PUnit) s = (PUnit.unit, f s) := rfl

@[simp] theorem call_modifyGet (f : σ → α × σ) (s : σ) : call (modifyGet f : StateM σ α) s = f s := rfl

@[simp] theorem call_ite (c : Prop) [Decidable c] (x y : StateM σ α) (s : σ) :
    call (if c then x else y) s = if c then call x s else call y s := by split <;> rfl

/-! ## Triples -/

/-- From every state satisfying `P`, `x` returns and leaves what `Q` asks. -/
def Meets (P : σ → Prop) (x : StateM σ α) (Q : α → σ → Prop) : Prop :=
  ∀ s, P s → Q (call x s).1 (call x s).2

namespace Meets

variable {P P' : σ → Prop} {x : StateM σ α} {Q Q' : α → σ → Prop}

theorem bind {R : β → σ → Prop} {f : α → StateM σ β} (hx : Meets P x Q)
    (hf : ∀ a, Meets (Q a) (f a) R) : Meets P (x >>= f) R :=
  fun s hs => hf _ _ (hx s hs)

theorem ite {c : Prop} [Decidable c] {y : StateM σ α} (hx : c → Meets P x Q)
    (hy : ¬ c → Meets P y Q) : Meets P (if c then x else y) Q := by
  split
  · exact hx ‹_›
  · exact hy ‹_›

theorem mono (h : Meets P x Q) (hP : ∀ s, P' s → P s) (hQ : ∀ a s, Q a s → Q' a s) :
    Meets P' x Q' :=
  fun s hs => hQ _ _ (h s (hP s hs))

end Meets

/-- `x` keeps the invariant `I`. -/
abbrev Preserves (I : σ → Prop) (x : StateM σ α) : Prop := Meets I x fun _ => I

namespace Preserves

variable {I : σ → Prop} {x : StateM σ α}

theorem pure (a : α) : Preserves I (Pure.pure a) := fun _ hs => hs

/-- A prefix that keeps the invariant. -/
theorem seq {f : α → StateM σ β} {R : β → σ → Prop} (hx : Preserves I x)
    (hf : ∀ a, Meets I (f a) R) : Meets I (x >>= f) R :=
  Meets.bind hx hf

end Preserves

/-! ## Functions that can fail -/

/-- Where a sequence succeeds, both parts do. -/
theorem bind_ok {ε : Type} {x : Except ε α} {f : α → Except ε β} {b : β}
    (h : (x >>= f) = .ok b) : ∃ a, x = .ok a ∧ f a = .ok b := by
  cases x with
  | error e => cases h
  | ok a => exact ⟨a, rfl, h⟩

end Rs485.Framework
