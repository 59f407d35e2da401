import Mathlib.Init

/-!
# Labelled transition systems

A system has initial states and a partial function `next`: what the action `a`
makes of the state `s`, if it can happen there. `Run ok s as t` says that the
actions `as`, each of which satisfies the guard `ok` in the state it is taken
in, lead from `s` to `t`; `Reach ok s` that such a run leads from an initial
state to `s`. With the guard `fun _ _ => True` these are all runs and all
reachable states.

`Reach.inv` is the invariant rule. `Run.kept_iff` and `Run.always_iff` are its
two-sided forms, for a guard that a property needs: the first where a property
once broken stays broken, the second where it may come back, so that it is asked
of every state of the run (`Always`); `Run.history_iff` is the first for what a run
records. `Run.filter` takes a run to one of
the actions of one component. `exec` runs a list of actions and tells
whether all of them could happen and met the guard, so that a run on fixed
inputs is a computation (`Run.any_of_exec`, `Run.of_decide`).
-/

namespace Rs485.Framework

/-- A labelled transition system. -/
structure Lts (σ α : Type) where
  init : σ → Prop
  next : σ → α → Option σ

namespace Lts

variable {σ α : Type} (L : Lts σ α)

/-- The actions `as` lead from `s` to a state, each satisfying `ok` when it is taken. -/
inductive Run (ok : σ → α → Prop) (s : σ) : List α → σ → Prop
  | nil : Run ok s [] s
  | snoc {as : List α} {t u : σ} {a : α} :
    Run ok s as t → ok t a → L.next t a = some u → Run ok s (as ++ [a]) u

/-- The guard of all runs. -/
abbrev any : σ → α → Prop := fun _ _ => True

/-- A state reached from an initial one by actions satisfying `ok`. -/
def Reach (ok : σ → α → Prop) (t : σ) : Prop := ∃ s as, L.init s ∧ L.Run ok s as t

variable {L} {ok ok' : σ → α → Prop} {s t u : σ} {a : α} {as : List α}

theorem Reach.of_init (h : L.init s) : L.Reach ok s := ⟨s, [], h, .nil⟩

theorem Reach.step (h : L.Reach ok s) (hok : ok s a) (hn : L.next s a = some t) : L.Reach ok t := by
  obtain ⟨s₀, as, hi, hr⟩ := h
  exact ⟨s₀, as ++ [a], hi, hr.snoc hok hn⟩

theorem Run.mono (h : L.Run ok s as t) (hok : ∀ s a, ok s a → ok' s a) : L.Run ok' s as t := by
  induction h with
  | nil => exact .nil
  | snoc _ ha hn ih => exact .snoc ih (hok _ _ ha) hn

/-- The last step of a run. -/
theorem Run.of_snoc (h : L.Run ok s (as ++ [a]) u) :
    ∃ t, L.Run ok s as t ∧ ok t a ∧ L.next t a = some u := by
  generalize hbs : as ++ [a] = bs at h
  cases h with
  | nil => simp at hbs
  | snoc hr hok hn =>
    obtain ⟨rfl, ha⟩ := List.append_inj' hbs rfl
    cases ha
    exact ⟨_, hr, hok, hn⟩

/-- A list of actions leads to one state at most. -/
theorem Run.unique (h : L.Run ok s as t) (h' : L.Run ok' s as u) : t = u := by
  induction h generalizing u with
  | nil =>
    generalize hbs : ([] : List α) = bs at h'
    cases h' with
    | nil => rfl
    | snoc => simp at hbs
  | snoc _ _ hn ih =>
    obtain ⟨t', hr', _, hn'⟩ := h'.of_snoc
    rw [ih hr', hn'] at hn
    exact (Option.some.inj hn).symm

theorem Run.append {bs : List α} (h : L.Run ok s as t) (h' : L.Run ok t bs u) : L.Run ok s (as ++ bs) u := by
  induction h' with
  | nil => rwa [List.append_nil]
  | snoc _ ha hn ih =>
    rw [← List.append_assoc]
    exact .snoc ih ha hn

/-- What a step keeps, a run keeps. -/
theorem Run.inv {I : σ → Prop} (h : L.Run ok s as t)
    (hstep : ∀ s a t, I s → ok s a → L.next s a = some t → I t) (hs : I s) : I t := by
  induction h with
  | nil => exact hs
  | snoc _ ha hn ih => exact hstep _ _ _ ih ha hn

/-- The invariant rule. -/
theorem Reach.inv {I : σ → Prop} (h : L.Reach ok t) (hinit : ∀ s, L.init s → I s)
    (hstep : ∀ s a t, I s → ok s a → L.next s a = some t → I t) : I t := by
  obtain ⟨s, as, hi, hr⟩ := h
  exact hr.inv hstep (hinit s hi)

/-! ## Guards that a property needs -/

variable (L) in
/-- `P` holds in every state of the run, the last one included. -/
def Always (P : σ → Prop) (s : σ) (as : List α) (t : σ) : Prop :=
  L.Run (fun s _ => P s) s as t ∧ P t

section

variable {J I B : σ → Prop} {g : σ → α → Prop} (h : L.Run ok s as t) (hJ : J s) (hs : I s)
  (hinv : ∀ s a t, J s → ok s a → L.next s a = some t → J t)
  (hkeep : ∀ s a t, J s → I s → ok s a → g s a → L.next s a = some t → I t)
  (hbreak : ∀ s a t, J s → I s → ok s a → ¬ g s a → L.next s a = some t → B t)
  (hstay : ∀ s a t, J s → B s → ok s a → L.next s a = some t → B t)
include h hJ hs hinv hkeep hbreak hstay

/-- Under an invariant `J`, a run keeps `I` if all its steps meet `g`, and else it ends in `B`. -/
theorem Run.keeps_or_breaks : (L.Run g s as t ∧ I t) ∨ (¬ L.Run g s as t ∧ B t) := by
  induction h with
  | nil => exact Or.inl ⟨.nil, hs⟩
  | snoc hr hok hn ih =>
    rename_i t u a
    have hJt := hr.inv hinv hJ
    rcases ih with ⟨hr', hI⟩ | ⟨hr', hB⟩
    · by_cases ha : g t a
      · exact Or.inl ⟨hr'.snoc ha hn, hkeep _ _ _ hJt hI hok ha hn⟩
      · refine Or.inr ⟨fun h => ?_, hbreak _ _ _ hJt hI hok ha hn⟩
        obtain ⟨t', hr'', ha', -⟩ := h.of_snoc
        obtain rfl := hr.unique hr''
        exact ha ha'
    · refine Or.inr ⟨fun h => ?_, hstay _ _ _ hJt hB hok hn⟩
      obtain ⟨t', hr'', -, -⟩ := h.of_snoc
      obtain rfl := hr.unique hr''
      exact hr' hr''

/-- A property of the last state that `I` gives and `B` excludes holds just in the runs whose
steps all meet `g`. -/
theorem Run.kept_iff {P : Prop} (hP : J t → I t → P) (hN : J t → B t → ¬ P) :
    P ↔ L.Run g s as t := by
  have hJt := h.inv hinv hJ
  rcases h.keeps_or_breaks hJ hs hinv hkeep hbreak hstay with ⟨hg, hI⟩ | ⟨hg, hB⟩
  · exact iff_of_true (hP hJt hI) hg
  · exact iff_of_false (hN hJt hB) hg

end

/-- What is recorded along a run satisfies `Q` throughout if and only if every step records
only such things. -/
theorem Run.history_iff {β : Type} {hist : σ → List β} {rec : σ → α → List β} {J : σ → Prop}
    (Q : β → Prop) (h : L.Run ok s as t) (hJ : J s) (hinv : ∀ s a t, J s → ok s a → L.next s a = some t → J t)
    (hstep : ∀ s a t, J s → L.next s a = some t → hist t = hist s ++ rec s a) (hs : ∀ c ∈ hist s, Q c) :
    (∀ c ∈ hist t, Q c) ↔ L.Run (fun s a => ∀ c ∈ rec s a, Q c) s as t := by
  refine h.kept_iff (I := fun s => ∀ c ∈ hist s, Q c) (B := fun s => ¬ ∀ c ∈ hist s, Q c) hJ hs hinv ?_ ?_ ?_
    (fun _ h => h) fun _ h => h
  · intro s a t hJ hI _ ha hn
    rw [hstep _ _ _ hJ hn]
    exact List.forall_mem_append.mpr ⟨hI, ha⟩
  · intro s a t hJ _ _ ha hn
    rw [hstep _ _ _ hJ hn]
    exact fun h => ha (List.forall_mem_append.mp h).2
  · intro s a t hJ hB _ hn
    rw [hstep _ _ _ hJ hn]
    exact fun h => hB (List.forall_mem_append.mp h).1

/-- The states of a run all satisfy `P` if and only if its steps all meet `ok'`. -/
theorem Run.always_iff {I P : σ → Prop} (h : L.Run ok s as t) (hs : I s) (hP : ∀ s, I s → P s)
    (hkeep : ∀ s a t, I s → ok s a → ok' s a → L.next s a = some t → I t)
    (hbreak : ∀ s a t, I s → ok s a → ¬ ok' s a → L.next s a = some t → ¬ P t) :
    L.Always P s as t ↔ L.Run ok' s as t := by
  have key : (L.Always P s as t → L.Run ok' s as t) ∧
      (L.Run ok' s as t → L.Always P s as t ∧ I t) := by
    induction h with
    | nil => exact ⟨fun _ => .nil, fun _ => ⟨⟨.nil, hP _ hs⟩, hs⟩⟩
    | snoc hr hok hn ih =>
      rename_i t u a
      refine ⟨fun ⟨h, hu⟩ => ?_, fun h => ?_⟩
      · obtain ⟨t', hr', ht', -⟩ := h.of_snoc
        obtain rfl := hr.unique hr'
        have hg := ih.1 ⟨hr', ht'⟩
        by_cases ha : ok' t a
        · exact hg.snoc ha hn
        · exact absurd hu (hbreak _ _ _ (ih.2 hg).2 hok ha hn)
      · obtain ⟨t', hr', ha, -⟩ := h.of_snoc
        obtain rfl := hr.unique hr'
        obtain ⟨⟨hrP, ht⟩, hI⟩ := ih.2 hr'
        have hu := hkeep _ _ _ hI hok ha hn
        exact ⟨⟨hrP.snoc ht hn, hP _ hu⟩, hu⟩
  exact ⟨key.1, fun h => (key.2 h).1⟩

/-! ## A part of the actions -/

/-- A run, seen by those of its actions that satisfy `p`, is a run of a system that
matches each of these and does not notice the others. -/
theorem Run.filter {β : Type} {M : Lts β α} {p : α → Bool} {I : σ → Prop} {S : σ → β → Prop}
    {e : β} (h : L.Run ok s as t) (hs : I s) (he : S s e)
    (hinv : ∀ s a t, I s → ok s a → L.next s a = some t → I t)
    (hmatch : ∀ s a t e, I s → S s e → p a = true → L.next s a = some t →
      ∃ e', M.next e a = some e' ∧ S t e')
    (hskip : ∀ s a t e, I s → S s e → p a = false → ok s a → L.next s a = some t → S t e) :
    ∃ e', M.Run any e (as.filter p) e' ∧ S t e' := by
  induction h with
  | nil => exact ⟨e, .nil, he⟩
  | snoc hr hok hn ih =>
    rename_i as t u a
    obtain ⟨e', hr', hs'⟩ := ih
    have hI := hr.inv hinv hs
    rw [List.filter_append]
    cases hp : p a with
    | true =>
      obtain ⟨e'', hn', hs''⟩ := hmatch _ _ _ _ hI hs' hp hn
      rw [List.filter_cons_of_pos hp]
      exact ⟨e'', hr'.snoc trivial hn', hs''⟩
    | false =>
      rw [List.filter_cons_of_neg (by simp [hp]), List.filter_nil, List.append_nil]
      exact ⟨e', hr', hskip _ _ _ _ hI hs' hp hok hn⟩

/-! ## Running a list of actions -/

/-- The state after the actions `as` (those that can happen), and whether all of
them could happen and satisfied the guard. -/
def exec (L : Lts σ α) (ok : σ → α → Bool) : σ → List α → σ × Bool
  | s, [] => (s, true)
  | s, a :: as =>
    match L.next s a with
    | some t =>
      let r := L.exec ok t as
      (r.1, ok s a && r.2)
    | none => (s, false)

theorem Run.cons (hok : ok s a) (hn : L.next s a = some t) (h : L.Run ok t as u) :
    L.Run ok s (a :: as) u := by
  induction h with
  | nil =>
    have hone : L.Run ok s ([] ++ [a]) t := .snoc .nil hok hn
    exact hone
  | snoc _ ha hn' ih => exact Run.snoc ih ha hn'

variable (L) in
theorem Run.of_exec (ok : σ → α → Bool) (s : σ) (as : List α) (h : (L.exec ok s as).2 = true) :
    L.Run (fun s a => ok s a = true) s as (L.exec ok s as).1 := by
  induction as generalizing s with
  | nil => exact .nil
  | cons a as ih =>
    simp only [exec] at h ⊢
    split at h
    · rename_i t ht
      simp only [Bool.and_eq_true] at h
      exact Run.cons h.1 ht (ih _ h.2)
    · cases h

variable (L) in
theorem Run.any_of_exec (s : σ) (as : List α) (h : (L.exec (fun _ _ => true) s as).2 = true) :
    L.Run any s as (L.exec (fun _ _ => true) s as).1 :=
  (Run.of_exec L _ s as h).mono fun _ _ _ => trivial

variable (L ok) in
theorem Run.of_decide [∀ s a, Decidable (ok s a)] (s : σ) (as : List α)
    (h : (L.exec (fun s a => decide (ok s a)) s as).2 = true) :
    L.Run ok s as (L.exec (fun s a => decide (ok s a)) s as).1 :=
  (Run.of_exec L _ s as h).mono fun _ _ => of_decide_eq_true

end Lts

end Rs485.Framework
