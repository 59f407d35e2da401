import Mathlib.Data.List.Basic
import Mathlib.Data.List.Induction

/-!
# Delimited frames

A frame is a text between a start character and two characters that end it, the
second right behind the first; a start character in a frame starts another one,
a character behind the first end that is not the second drops the frame, and so
do a text above a limit and a timeout, which runs while a frame is open. What the
scanner has seen is a text of its own (`text_iff`), so that the frames of a stream
are read off the stream (`found_iff`), and so is the one way that a timeout comes
when no frame is open (`stale_iff`).
-/

namespace Rs485.Spec.Scanner

variable {α : Type}

/-- The characters, and the most a text may have. -/
structure Format (α : Type) where
  start : α
  cr : α
  lf : α
  limit : Nat
  start_ne_cr : start ≠ cr
  start_ne_lf : start ≠ lf

/-- Where the scanner is. -/
inductive Scan (α : Type)
  /-- No frame is open; the timeout may run nevertheless. -/
  | idle (timing : Bool)
  /-- A frame is open, and `cs` is its text so far. -/
  | text (cs : List α)
  /-- The text of the frame has ended. -/
  | closed (cs : List α)

variable [DecidableEq α] (F : Format α)

/-- A character. -/
def Scan.char (c : α) : Scan α → Scan α
  | .idle timing => if c = F.start then .text [] else .idle timing
  | .text cs =>
    if c = F.start then .text []
    else if c = F.cr then .closed cs
    else if cs.length < F.limit then .text (cs ++ [c]) else .idle false
  | .closed _ =>
    if c = F.lf then .idle false
    else if c = F.start then .text []
    else .idle true

/-- The text of the frame that `c` completes. -/
def Scan.found (c : α) : Scan α → Option (List α)
  | .closed cs => if c = F.lf then some cs else none
  | _ => none

/-- The timeout. -/
def Scan.timeout : Scan α → Option (Scan α)
  | .idle _ => none
  | _ => some (.idle false)

/-- The scanner after the stream `ins`, where `none` is a timeout; a timeout while no frame is open
ends it. -/
def scan : List (Option α) → Scan α → Option (Scan α)
  | [], q => some q
  | some c :: ins, q => scan ins (q.char F c)
  | none :: ins, q => q.timeout.bind (scan ins)

variable {F} {ins : List (Option α)} {q : Scan α} {c : α} {cs : List α}

theorem scan_append (ins ins' : List (Option α)) (q : Scan α) :
    scan F (ins ++ ins') q = (scan F ins q).bind (scan F ins') := by
  induction ins generalizing q with
  | nil => rfl
  | cons i ins ih =>
    cases i with
    | none =>
      rw [List.cons_append, scan, scan]
      cases q.timeout with
      | none => rfl
      | some r => exact ih r
    | some c => exact ih _

/-- The last step of a scan. -/
theorem scan_snoc {i : Option α} {r : Scan α} (h : scan F (ins ++ [i]) q = some r) :
    ∃ p, scan F ins q = some p ∧ ((∃ c, i = some c ∧ r = p.char F c) ∨ (i = none ∧ p.timeout = some r)) := by
  rw [scan_append] at h
  obtain ⟨p, hp, hr⟩ := Option.bind_eq_some_iff.mp h
  refine ⟨p, hp, ?_⟩
  cases i with
  | none =>
    obtain ⟨r', ht, hr'⟩ := Option.bind_eq_some_iff.mp hr
    cases hr'
    exact Or.inr ⟨rfl, ht⟩
  | some c =>
    cases hr
    exact Or.inl ⟨c, rfl, rfl⟩

omit [DecidableEq α] in
theorem Scan.timeout_eq {r : Scan α} (h : q.timeout = some r) : r = .idle false := by
  cases q with
  | idle => cases h
  | text | closed => exact (Option.some.inj h).symm

/-! ## What the scanner has seen -/

/-- The stream ends within a frame with the text `cs`. -/
def Opened (F : Format α) (ins : List (Option α)) (cs : List α) : Prop :=
  (∃ pre, ins = pre ++ some F.start :: cs.map some) ∧ F.start ∉ cs ∧ F.cr ∉ cs ∧ cs.length ≤ F.limit

omit [DecidableEq α] in
theorem not_opened_nil : ¬ Opened F [] cs := by
  rintro ⟨⟨pre, h⟩, -⟩
  simp at h

omit [DecidableEq α] in
theorem opened_snoc {i : Option α} : Opened F (ins ++ [i]) cs ↔
    (i = some F.start ∧ cs = []) ∨
      ∃ c cs', i = some c ∧ cs = cs' ++ [c] ∧ Opened F ins cs' ∧ c ≠ F.start ∧ c ≠ F.cr ∧
        cs'.length < F.limit := by
  constructor
  · rintro ⟨⟨pre, h⟩, hs, hc, hlen⟩
    rcases List.eq_nil_or_concat cs with rfl | ⟨cs', c, rfl⟩
    · exact Or.inl ⟨(List.cons.inj (List.append_inj' h rfl).2).1, rfl⟩
    · rw [List.concat_eq_append] at *
      rw [List.map_append, ← List.cons_append, ← List.append_assoc] at h
      obtain ⟨hins, hi⟩ := List.append_inj' h rfl
      rw [List.length_append, List.length_singleton] at hlen
      simp only [List.mem_append, List.mem_singleton, not_or] at hs hc
      exact Or.inr ⟨c, cs', (List.cons.inj hi).1, rfl, ⟨⟨pre, hins⟩, hs.1, hc.1, by omega⟩, Ne.symm hs.2,
        Ne.symm hc.2, by omega⟩
  · rintro (⟨rfl, rfl⟩ | ⟨c, cs', rfl, rfl, ⟨⟨pre, rfl⟩, hs, hc, -⟩, hcs, hcc, hlen⟩)
    · exact ⟨⟨ins, rfl⟩, List.not_mem_nil, List.not_mem_nil, Nat.zero_le _⟩
    · refine ⟨⟨pre, by simp⟩, ?_, ?_, by rw [List.length_append, List.length_singleton]; omega⟩
      · simpa using ⟨hs, Ne.symm hcs⟩
      · simpa using ⟨hc, Ne.symm hcc⟩

variable {b : Bool}

/-- The text of an open frame is what the stream ends with. -/
theorem text_iff (h : scan F ins (.idle b) = some q) : q = .text cs ↔ Opened F ins cs := by
  induction ins using List.reverseRecOn generalizing q cs with
  | nil =>
    cases h
    exact iff_of_false nofun not_opened_nil
  | append_singleton ins i ih =>
    rw [opened_snoc]
    obtain ⟨p, hp, ⟨c, rfl, rfl⟩ | ⟨rfl, ht⟩⟩ := scan_snoc h
    · simp only [Option.some.injEq]
      by_cases hc : c = F.start
      · subst hc
        constructor
        · intro hq
          refine Or.inl ⟨rfl, ?_⟩
          cases p with
          | idle => simpa [Scan.char, eq_comm] using hq
          | text => simpa [Scan.char, eq_comm] using hq
          | closed => simpa [Scan.char, F.start_ne_lf, eq_comm] using hq
        · rintro (⟨-, rfl⟩ | ⟨_, _, rfl, -, -, hne, -⟩)
          · cases p with
            | idle => simp [Scan.char]
            | text => simp [Scan.char]
            | closed => simp [Scan.char, F.start_ne_lf]
          · exact absurd rfl hne
      · constructor
        · intro hq
          refine Or.inr ?_
          cases p with
          | idle => simp [Scan.char, hc] at hq
          | closed =>
            simp only [Scan.char, hc, if_false] at hq
            split at hq <;> cases hq
          | text cs' =>
            simp only [Scan.char, hc, if_false] at hq
            split at hq
            · cases hq
            · rename_i hcr
              split at hq
              · rename_i hlen
                cases hq
                exact ⟨c, cs', rfl, rfl, (ih hp).mp rfl, hc, hcr, hlen⟩
              · cases hq
        · rintro (⟨rfl, -⟩ | ⟨_, cs', rfl, rfl, hopen, -, hcr, hlen⟩)
          · exact absurd rfl hc
          · rw [(ih hp).mpr hopen]
            simp [Scan.char, hc, hcr, hlen]
    · rw [Scan.timeout_eq ht]
      simp

/-- A text has ended just if the stream ends with it and the first end. -/
theorem closed_iff (h : scan F ins (.idle b) = some q) :
    q = .closed cs ↔ ∃ ins', ins = ins' ++ [some F.cr] ∧ Opened F ins' cs := by
  rcases List.eq_nil_or_concat ins with rfl | ⟨ins, i, rfl⟩
  · cases h
    simp
  · rw [List.concat_eq_append] at *
    obtain ⟨p, hp, ⟨c, rfl, rfl⟩ | ⟨rfl, ht⟩⟩ := scan_snoc h
    · constructor
      · intro hq
        have hcr : p = .text cs ∧ c = F.cr := by
          cases p with
          | idle => simp only [Scan.char] at hq; split at hq <;> cases hq
          | closed =>
            simp only [Scan.char] at hq
            split at hq
            · cases hq
            · split at hq <;> cases hq
          | text cs' =>
            simp only [Scan.char] at hq
            split at hq
            · cases hq
            · split at hq
              · rename_i hcr
                cases hq
                exact ⟨rfl, hcr⟩
              · split at hq <;> cases hq
        obtain ⟨rfl, rfl⟩ := hcr
        exact ⟨ins, rfl, (text_iff hp).mp rfl⟩
      · rintro ⟨ins', heq, hopen⟩
        obtain ⟨rfl, hc⟩ := List.append_inj' heq rfl
        cases hc
        rw [(text_iff hp).mpr hopen]
        simp [Scan.char, Ne.symm F.start_ne_cr]
    · rw [Scan.timeout_eq ht]
      refine iff_of_false nofun ?_
      rintro ⟨ins', heq, -⟩
      cases (List.append_inj' heq rfl).2

/-- A character completes the frames that the stream ends with. -/
theorem found_iff (h : scan F ins (.idle b) = some q) :
    q.found F c = some cs ↔ ∃ ins', ins ++ [some c] = ins' ++ [some F.cr, some F.lf] ∧ Opened F ins' cs := by
  have hfound : q.found F c = some cs ↔ q = .closed cs ∧ c = F.lf := by
    cases q with
    | idle | text => simp [Scan.found]
    | closed => simp [Scan.found, and_comm]
  rw [hfound, closed_iff h]
  constructor
  · rintro ⟨⟨ins', rfl, hopen⟩, rfl⟩
    exact ⟨ins', by simp, hopen⟩
  · rintro ⟨ins', heq, hopen⟩
    rw [show ins' ++ [some F.cr, some F.lf] = ins' ++ [some F.cr] ++ [some F.lf] by simp] at heq
    obtain ⟨rfl, hc⟩ := List.append_inj' heq rfl
    cases hc
    exact ⟨⟨ins', rfl, hopen⟩, rfl⟩

/-- Since the last start, a frame was dropped at its end. -/
def Stale (F : Format α) (ins : List (Option α)) : Prop :=
  ∃ ins' cs c, ∃ rest : List α,
    ins = ins' ++ [some F.cr, some c] ++ rest.map some ∧ Opened F ins' cs ∧
      c ≠ F.lf ∧ c ≠ F.start ∧ F.start ∉ rest

omit [DecidableEq α] in
theorem stale_snoc {i : Option α} :
    Stale F (ins ++ [i]) ↔ ∃ c, i = some c ∧ c ≠ F.start ∧
      ((∃ cs ins', ins = ins' ++ [some F.cr] ∧ Opened F ins' cs ∧ c ≠ F.lf) ∨ Stale F ins) := by
  constructor
  · rintro ⟨ins', cs, c, rest, heq, hopen, hlf, hstart, hrest⟩
    rcases List.eq_nil_or_concat rest with rfl | ⟨rest, d, rfl⟩
    · rw [List.map_nil, List.append_nil,
        show ins' ++ [some F.cr, some c] = ins' ++ [some F.cr] ++ [some c] by simp] at heq
      obtain ⟨rfl, hi⟩ := List.append_inj' heq rfl
      cases hi
      exact ⟨c, rfl, hstart, Or.inl ⟨cs, ins', rfl, hopen, hlf⟩⟩
    · rw [List.concat_eq_append] at *
      rw [List.map_append, ← List.append_assoc] at heq
      obtain ⟨rfl, hi⟩ := List.append_inj' heq rfl
      cases hi
      simp only [List.mem_append, List.mem_singleton, not_or] at hrest
      exact ⟨d, rfl, Ne.symm hrest.2, Or.inr ⟨ins', cs, c, rest, rfl, hopen, hlf, hstart, hrest.1⟩⟩
  · rintro ⟨c, rfl, hstart, ⟨cs, ins', rfl, hopen, hlf⟩ | ⟨ins', cs, d, rest, rfl, hopen, hlf, hstart', hrest⟩⟩
    · exact ⟨ins', cs, c, [], by simp, hopen, hlf, hstart, List.not_mem_nil⟩
    · exact ⟨ins', cs, d, rest ++ [c], by simp, hopen, hlf, hstart', by simpa using ⟨hrest, Ne.symm hstart⟩⟩

/-- The timeout runs while no frame is open just if a frame was dropped at its end. -/
theorem stale_iff (h : scan F ins (.idle false) = some q) : q = .idle true ↔ Stale F ins := by
  induction ins using List.reverseRecOn generalizing q with
  | nil =>
    cases h
    refine iff_of_false nofun ?_
    rintro ⟨ins', cs, c, rest, heq, -⟩
    simp at heq
  | append_singleton ins i ih =>
    rw [stale_snoc]
    obtain ⟨p, hp, ⟨c, rfl, rfl⟩ | ⟨rfl, ht⟩⟩ := scan_snoc h
    · have hstep : p.char F c = .idle true ↔
          c ≠ F.start ∧ ((∃ cs, p = .closed cs ∧ c ≠ F.lf) ∨ p = .idle true) := by
        cases p with
        | idle t => by_cases hc : c = F.start <;> simp [Scan.char, hc]
        | text cs =>
          simp only [Scan.char, reduceCtorEq, false_and, exists_false, or_self, and_false, iff_false]
          split
          · simp
          · split
            · simp
            · split <;> simp
        | closed cs =>
          by_cases hl : c = F.lf
          · simp [Scan.char, hl]
          · by_cases hc : c = F.start
            · simp [Scan.char, hc, F.start_ne_lf]
            · simp [Scan.char, hl, hc]
      rw [hstep, ih hp]
      simp only [closed_iff hp, exists_and_right, Option.some.injEq, exists_eq_left']
      simp only [← and_assoc, exists_and_right]
    · rw [Scan.timeout_eq ht]
      refine iff_of_false nofun ?_
      rintro ⟨c, hc, -⟩
      cases hc

end Rs485.Spec.Scanner
