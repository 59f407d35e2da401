import Mathlib.Data.Fintype.Card

/-!
# Wakes that are not lost

Parties take tokens. One that finds none is put on a list, and for each token that is
given later one party is taken off the list and tries again; wakes can be put off and are
owed until then. `Safe` is what keeps a party from waiting beside a token that nobody
comes for: while somebody is on the list, or about to be put there, the tokens are no more
than the parties that will try and the wakes that are owed.

Each lemma is one kind of step. `Safe.take` and `Safe.handOn` are why a party that was woken has to
take its token or wake the next.
-/

namespace Rs485.Framework

variable {ι : Type} [Fintype ι] [DecidableEq ι]

/-- The parties that will try to take a token: those that are ready and not on the list. -/
def awake (ready : ι → Bool) (waiting : List ι) : Finset ι :=
  Finset.univ.filter fun i => ready i ∧ i ∉ waiting

/-- There are parties for the tokens, or a wake is owed to everybody. -/
def Covered (tokens : Nat) (awake : Finset ι) (owed : Nat) : Prop :=
  Fintype.card ι ≤ owed ∨ tokens ≤ awake.card + owed

/-- The parties on the list would try if they were not there, and the tokens are covered as long as
somebody is on the list or about to be put there (`placing`). -/
structure Safe (tokens : Nat) (waiting : List ι) (ready : ι → Bool) (placing : Prop) (owed : Nat) : Prop where
  nodup : waiting.Nodup
  parked : ∀ i ∈ waiting, ready i
  covered : waiting ≠ [] ∨ placing → Covered tokens (awake ready waiting) owed

variable {j k o : Nat} {w w' : List ι} {ready ready' : ι → Bool} {P P' : Prop} {t : ι}

theorem mem_awake {i : ι} : i ∈ awake ready w ↔ ready i ∧ i ∉ w := by
  rw [awake, Finset.mem_filter, and_iff_right (Finset.mem_univ i)]

namespace Safe

variable (h : Safe k w ready P o)
include h

/-- More parties try. -/
theorem mono (hj : j ≤ k) (hready : ∀ i, ready i → ready' i) (hP : P' → P) : Safe j w ready' P' o := by
  refine ⟨h.nodup, fun i hi => hready i (h.parked i hi), fun hor =>
    (h.covered (hor.imp_right hP)).imp_right fun hle => ?_⟩
  have hsub : awake ready w ⊆ awake ready' w := fun i hi => by
    rw [mem_awake] at hi ⊢
    exact ⟨hready i hi.1, hi.2⟩
  have hcard := Finset.card_le_card hsub
  omega

/-- There is no token. -/
theorem none {o' : Nat} (hj : j = 0) (hready : ∀ i ∈ w, ready' i) : Safe j w ready' P' o' := by
  subst hj
  exact ⟨h.nodup, hready, fun _ => .inr (Nat.zero_le _)⟩

/-- A party that tries takes a token. -/
theorem take (ht : t ∉ w) (hj : j < k) (hready : ∀ i ≠ t, ready i → ready' i) (hP : P' → P) :
    Safe j w ready' P' o := by
  refine ⟨h.nodup, fun i hi => hready i (fun he => ht (he ▸ hi)) (h.parked i hi), fun hor =>
    (h.covered (hor.imp_right hP)).imp_right fun hle => ?_⟩
  have hsub : (awake ready w).erase t ⊆ awake ready' w := fun i hi => by
    rw [Finset.mem_erase, mem_awake] at hi
    exact mem_awake.mpr ⟨hready i hi.1 hi.2.1, hi.2.2⟩
  have hcard := Finset.card_le_card hsub
  have herase := Finset.pred_card_le_card_erase (s := awake ready w) (a := t)
  omega

/-- A token is given, and the first party on the list is woken. -/
theorem give (hno : ¬ P') (hj : j ≤ k + 1) (hready : ∀ i, ready i → ready' i) : Safe j w.tail ready' P' o := by
  cases w with
  | nil => exact ⟨List.nodup_nil, fun i hi => absurd hi List.not_mem_nil, fun hor => absurd hor (by simp [hno])⟩
  | cons x w =>
    obtain ⟨hx, hnodup⟩ := List.nodup_cons.mp h.nodup
    have hparked := h.parked
    refine ⟨hnodup, fun i hi => hready i (hparked i (List.mem_cons_of_mem x hi)), fun _ =>
      (h.covered (.inl (List.cons_ne_nil x w))).imp_right fun hle => ?_⟩
    have hnew : x ∉ awake ready (x :: w) := fun hmem => (mem_awake.mp hmem).2 List.mem_cons_self
    have hsub : insert x (awake ready (x :: w)) ⊆ awake ready' w := fun i hi => by
      rcases Finset.mem_insert.mp hi with rfl | hi
      · exact mem_awake.mpr ⟨hready i (hparked i List.mem_cons_self), hx⟩
      · obtain ⟨hi, hnot⟩ := mem_awake.mp hi
        exact mem_awake.mpr ⟨hready i hi, fun hmem => hnot (List.mem_cons_of_mem x hmem)⟩
    have hcard := Finset.card_le_card hsub
    rw [Finset.card_insert_of_notMem hnew] at hcard
    dsimp only [List.tail_cons]
    omega

/-- A party that tries leaves the token, and wakes the first one on the list. -/
theorem handOn (hno : ¬ P') (ht : t ∉ w) (hj : j ≤ k) (hready : ∀ i ≠ t, ready i → ready' i) :
    Safe j w.tail ready' P' o := by
  cases k with
  | zero =>
    obtain rfl := Nat.le_zero.mp hj
    have htail : ∀ i ∈ w.tail, ready' i := fun i hi =>
      hready i (fun he => ht (he ▸ List.mem_of_mem_tail hi)) (h.parked i (List.mem_of_mem_tail hi))
    exact ⟨h.nodup.tail, htail, fun _ => .inr (Nat.zero_le _)⟩
  | succ k =>
    -- as if it took the token and gave it back
    have htaken : Safe k w ready' P' o := h.take ht (Nat.lt_succ_self k) hready fun hp => absurd hp hno
    exact htaken.give hno hj fun _ => id

/-- A token is given, and a wake is owed for it. -/
theorem owe (hj : j ≤ k + 1) : Safe j w ready P (o + 1) :=
  ⟨h.nodup, h.parked, fun hor => (h.covered hor).imp (fun hle => Nat.le_succ_of_le hle) fun hle => by omega⟩

/-- A wake is owed to everybody. -/
theorem capped (ho : Fintype.card ι ≤ o) : Safe j w ready P o :=
  ⟨h.nodup, h.parked, fun _ => .inl ho⟩

/-- The wakes that are owed are made. -/
theorem settle (hno : ¬ P') (hready : ∀ i, ready i → ready' i) : Safe k (w.drop o) ready' P' 0 := by
  have hparked := h.parked
  refine ⟨h.nodup.sublist (List.drop_sublist o w), fun i hi => hready i (hparked i (List.mem_of_mem_drop hi)),
    fun hor => ?_⟩
  have hdrop : w.drop o ≠ [] := hor.resolve_right hno
  have hlen : o < w.length := by
    by_contra hle
    exact hdrop (List.drop_of_length_le (Nat.le_of_not_lt hle))
  have hw : w ≠ [] := fun he => by
    rw [he] at hlen
    exact absurd hlen (Nat.not_lt_zero o)
  have hall : w.length ≤ Fintype.card ι := h.nodup.length_le_card
  have hle := (h.covered (.inl hw)).resolve_left (by omega)
  right
  -- those that were awake, and those that are woken
  have hdisj : Disjoint (awake ready w) (w.take o).toFinset := by
    rw [Finset.disjoint_left]
    intro i hi hmem
    exact (mem_awake.mp hi).2 (List.mem_of_mem_take (List.mem_toFinset.mp hmem))
  have hsub : awake ready w ∪ (w.take o).toFinset ⊆ awake ready' (w.drop o) := fun i hi => by
    rcases Finset.mem_union.mp hi with hi | hi
    · obtain ⟨hi, hnot⟩ := mem_awake.mp hi
      exact mem_awake.mpr ⟨hready i hi, fun hmem => hnot (List.mem_of_mem_drop hmem)⟩
    · have hmem := List.mem_toFinset.mp hi
      refine mem_awake.mpr ⟨hready i (hparked i (List.mem_of_mem_take hmem)), fun hdropped => ?_⟩
      have hnodup := h.nodup
      rw [← List.take_append_drop o w] at hnodup
      exact (List.disjoint_of_nodup_append hnodup) hmem hdropped
  have hcard := Finset.card_le_card hsub
  rw [Finset.card_union_of_disjoint hdisj,
    List.toFinset_card_of_nodup (h.nodup.sublist (List.take_sublist o w)),
      List.length_take_of_le (Nat.le_of_lt hlen)] at hcard
  omega

/-- A party is put on the list. -/
theorem place (hp : P) (ht : ¬ ready t) (ht' : ready' t) (hready : ∀ i, ready i → ready' i)
    (hw : w'.Perm (t :: w)) :
    Safe k w' ready' P' o := by
  have hnew : t ∉ w := fun hmem => ht (h.parked t hmem)
  refine ⟨hw.nodup_iff.mpr (List.nodup_cons.mpr ⟨hnew, h.nodup⟩), fun i hi => ?_, fun _ =>
    (h.covered (.inr hp)).imp_right fun hle => ?_⟩
  · rcases List.mem_cons.mp (hw.mem_iff.mp hi) with rfl | hi
    · exact ht'
    · exact hready i (h.parked i hi)
  · have hsub : awake ready w ⊆ awake ready' w' := fun i hi => by
      obtain ⟨hi, hnot⟩ := mem_awake.mp hi
      refine mem_awake.mpr ⟨hready i hi, fun hmem => ?_⟩
      rcases List.mem_cons.mp (hw.mem_iff.mp hmem) with rfl | hmem
      · exact ht hi
      · exact hnot hmem
    have hcard := Finset.card_le_card hsub
    omega

/-- A party leaves the list. -/
theorem leave (t : ι) : Safe k (w.erase t) ready P o := by
  refine ⟨h.nodup.erase t, fun i hi => h.parked i (List.mem_of_mem_erase hi), fun hor => ?_⟩
  have hor' : w ≠ [] ∨ P := hor.imp_left fun hne he => hne (by rw [he, List.erase_nil])
  refine (h.covered hor').imp_right fun hle => ?_
  have hsub : awake ready w ⊆ awake ready (w.erase t) := fun i hi => by
    obtain ⟨hi, hnot⟩ := mem_awake.mp hi
    exact mem_awake.mpr ⟨hi, fun hmem => hnot (List.mem_of_mem_erase hmem)⟩
  have hcard := Finset.card_le_card hsub
  omega

end Safe

end Rs485.Framework
