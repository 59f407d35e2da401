import Rs485.Framework.Call

/-!
# Programs that work on one part of the state

The parts of a state are read off it by `view`. `LocalTo view i x` says that
what `x` returns and what it leaves of the part `i` are determined by that part,
and that it leaves the other parts alone. A sequence of such programs is one.
-/

namespace Rs485.Framework

variable {σ ι δ α β : Type}

/-- `x` depends on the part `i` of the state alone, and changes no other. -/
structure LocalTo (view : σ → ι → δ) (i : ι) (x : StateM σ α) : Prop where
  val : ∀ s t, view s i = view t i → (call x s).1 = (call x t).1
  part : ∀ s t, view s i = view t i → view (call x s).2 i = view (call x t).2 i
  others : ∀ s j, j ≠ i → view (call x s).2 j = view s j

namespace LocalTo

variable {view : σ → ι → δ} {i : ι} {x y : StateM σ α}

theorem pure (a : α) : LocalTo view i (Pure.pure a) where
  val _ _ _ := rfl
  part _ _ h := h
  others _ _ _ := rfl

/-- The second program need only be local for what the first can return. -/
theorem bind {f : α → StateM σ β} (hx : LocalTo view i x)
    (hf : ∀ s, LocalTo view i (f (call x s).1)) : LocalTo view i (x >>= f) where
  val s t h := by
    rw [call_bind, call_bind, hx.val s t h]
    exact (hf t).val _ _ (hx.part s t h)
  part s t h := by
    rw [call_bind, call_bind, hx.val s t h]
    exact (hf t).part _ _ (hx.part s t h)
  others s j hj := by
    rw [call_bind, (hf s).others _ j hj, hx.others s j hj]

theorem ite {c : Prop} [Decidable c] (hx : c → LocalTo view i x) (hy : ¬ c → LocalTo view i y) :
    LocalTo view i (if c then x else y) := by
  split
  · exact hx ‹_›
  · exact hy ‹_›

end LocalTo

end Rs485.Framework
