import Mathlib.Init

/-!
# Lines and their words

What a line editor is for: of the characters typed it keeps those of the line
that was not ended yet, and the lines ended before. A line ends with `enter`, or
where there is a `limit` with the character that gives it that length; the
character that ends a line does not belong to it.
-/

namespace Rs485.Spec

variable {α : Type}

/-- What a character means to the editor. -/
inductive Key (α : Type)
  | char (c : α)
  | enter
  | backspace
  | ignored

/-- The text of the line that was not ended yet, and the lines ended. -/
structure Editor (α : Type) where
  typed : List α
  lines : List (List α)

namespace Editor

/-- The editor before anything was typed. -/
def empty : Editor α := ⟨[], []⟩

/-- The line ends. -/
def endLine (e : Editor α) : Editor α := ⟨[], e.lines ++ [e.typed]⟩

/-- A key. -/
def key (limit : Option Nat) (e : Editor α) : Key α → Editor α
  | .char c => if limit = some (e.typed.length + 1) then e.endLine else { e with typed := e.typed ++ [c] }
  | .enter => e.endLine
  | .backspace => { e with typed := e.typed.dropLast }
  | .ignored => e

end Editor

/-! ## Words -/

variable [DecidableEq α] {sep : α} {w rest : List α}

/-- The words of a text: what stands between its separators, where that is not empty. -/
def words (sep : α) (text : List α) : List (List α) := (text.splitOn sep).filter (· ≠ [])

/-- A text without separators is one word, or none. -/
theorem words_of_notMem (h : sep ∉ w) : words sep w = if w = [] then [] else [w] := by
  rw [words, List.splitOn_eq_singleton h]
  by_cases hw : w = [] <;> simp [hw]

/-- The words before a separator, and those behind it. -/
theorem words_append_sep (h : sep ∉ w) : words sep (w ++ sep :: rest) = words sep w ++ words sep rest := by
  rw [words, List.splitOn_append_cons_self_of_not_mem h, words, words, List.splitOn_eq_singleton h,
    List.filter_cons, List.filter_cons, List.filter_nil]
  split <;> rfl

end Rs485.Spec
