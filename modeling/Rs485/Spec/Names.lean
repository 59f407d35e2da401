import Mathlib.Init

/-!
# Names of labels

A name is a list of labels. On the wire each label is its length and its octets, and
a zero ends the name (`wire`); as a text the labels are joined by a separator (`dotted`).
-/

namespace Rs485.Spec.Names

abbrev Label := List (BitVec 8)

/-- A label that can stand in a name on the wire. -/
def Label.Valid (l : Label) : Prop := l ≠ [] ∧ l.length < 256

/-- The octets of a name. -/
def wire : List Label → List (BitVec 8)
  | [] => [0]
  | l :: ls => BitVec.ofNat 8 l.length :: (l ++ wire ls)

/-- The labels joined by `sep`; `more` is whether there is a label before them. -/
def dotted (sep : BitVec 8) : Bool → List Label → List (BitVec 8)
  | _, [] => []
  | more, l :: ls => (if more then [sep] else []) ++ l ++ dotted sep true ls

@[simp] theorem length_wire_cons (l : Label) (ls : List Label) :
    (wire (l :: ls)).length = 1 + l.length + (wire ls).length := by
  rw [wire, List.length_cons, List.length_append]
  omega

theorem length_wire_pos (ls : List Label) : 0 < (wire ls).length := by
  cases ls <;> simp [wire]

end Rs485.Spec.Names
