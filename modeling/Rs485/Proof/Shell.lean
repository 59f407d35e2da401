import Mathlib.Data.List.Forall2
import Rs485.Impl.Shell
import Rs485.Spec.Lines

/-!
# What the shell makes of a stream

The buffer holds the line that was not ended yet (`Holding`). Its end gives the
line's words to a command lookup (`prvProcess_end`), by an induction on the
characters of the line in the loop of `prv_process` (`prvArgs_spec`). So the
commands looked up are those of the lines of the stream (`shell_lines`), where a
line ends at the latest with its 256th character.
-/

namespace Rs485.Shell

open Rs485.Framework Rs485.Spec

section

variable {s : ShellContext}

@[simp] theorem call_rd (i : Nat) (s : ShellContext) :
    call (rd i) s = (s.rxBuffer.data () i, { s with rxBuffer := s.rxBuffer.touch ⟨(), i⟩ }) := rfl

@[simp] theorem call_wr (i : Nat) (c : Byte) (s : ShellContext) :
    call (wr i c) s = (PUnit.unit, { s with rxBuffer := s.rxBuffer.store ⟨(), i⟩ c }) := rfl

/-! ## Strings in the buffer -/

/-- At index `p` the buffer holds the string `w`. -/
def IsStr (m : Mem Unit Byte) (p : Nat) (w : List Byte) : Prop := m.Holds ⟨(), p⟩ (w ++ [0]) ∧ 0 ∉ w

theorem isStr_nil {m : Mem Unit Byte} {p : Nat} : IsStr m p [] ↔ m.data () p = 0 := by
  rw [IsStr, List.nil_append, Mem.holds_cons, and_iff_left Mem.holds_nil, and_iff_left List.not_mem_nil]

theorem isStr_cons {m : Mem Unit Byte} {p : Nat} {x : Byte} {w : List Byte} :
    IsStr m p (x :: w) ↔ m.data () p = x ∧ x ≠ 0 ∧ IsStr m (p + 1) w := by
  have hadd : (⟨(), p⟩ : Ptr Unit).add 1 = ⟨(), p + 1⟩ := rfl
  rw [IsStr, IsStr, List.cons_append, Mem.holds_cons, hadd, List.mem_cons, not_or, and_assoc,
    and_left_comm (b := ¬ 0 = x), ne_comm]

theorem IsStr.congr {m m' : Mem Unit Byte} {p i : Nat} {w : List Byte} (h : IsStr m p w)
    (hi : p + w.length < i) (hm : ∀ k < i, m'.data () k = m.data () k) : IsStr m' p w := by
  refine ⟨h.1.congr fun k _ hk => hm k (Nat.lt_of_lt_of_le hk ?_), h.2⟩
  rw [List.length_append, List.length_singleton]
  exact hi

/-- `x` returns `a` and changes at most the record of accesses. -/
def Reads {α : Type} (x : ShellM α) (s : ShellContext) (a : α) : Prop :=
  ∃ m, m.data = s.rxBuffer.data ∧ call x s = (a, { s with rxBuffer := m })

theorem reads_pure {α : Type} (a : α) : Reads (pure a) s a := ⟨s.rxBuffer, rfl, rfl⟩

theorem Reads.bind {α β : Type} {x : ShellM α} {f : α → ShellM β} {a : α} {b : β} (h : Reads x s a)
    (hf : ∀ m, m.data = s.rxBuffer.data → Reads (f a) { s with rxBuffer := m } b) : Reads (x >>= f) s b := by
  obtain ⟨m, hm, hx⟩ := h
  obtain ⟨m', hm', hf⟩ := hf m hm
  refine ⟨m', hm'.trans hm, ?_⟩
  rw [call_bind, hx]
  exact hf

theorem reads_rd (i : Nat) : Reads (rd i) s (s.rxBuffer.data () i) :=
  ⟨s.rxBuffer.touch ⟨(), i⟩, rfl, rfl⟩

theorem strcmp_spec {name w : List Byte} {p : Nat} (hname : 0 ∉ name) (h : IsStr s.rxBuffer p w) :
    Reads (strcmp name p) s (name = w) := by
  induction name generalizing p w s with
  | nil =>
    refine (reads_rd p).bind fun m hm => ?_
    have hw : s.rxBuffer.data () p = 0 ↔ [] = w := by
      cases w with
      | nil => simp [isStr_nil.mp h]
      | cons x w =>
        obtain ⟨hx, hne, -⟩ := isStr_cons.mp h
        rw [hx]
        simp [show x ≠ 0#8 from hne]
    simp only [hw]
    exact reads_pure _
  | cons x name ih =>
    rw [List.mem_cons, not_or] at hname
    refine (reads_rd p).bind fun m hm => ?_
    cases w with
    | nil =>
      rw [isStr_nil.mp h, if_neg hname.1]
      exact reads_pure _
    | cons y w =>
      obtain ⟨hy, hne, hw⟩ := isStr_cons.mp h
      rw [hy]
      by_cases hxy : y = x
      · rw [if_pos hxy]
        have hiff : (x :: name = y :: w) = (name = w) := by simp [hxy]
        simp only [hiff]
        exact ih hname.2 (hw.congr (Nat.lt_succ_self _) fun k _ => by rw [hm])
      · rw [if_neg hxy]
        have hne' : ¬ x :: name = y :: w := by simp [Ne.symm hxy]
        simp only [hne', decide_false]
        exact reads_pure _

/-- `prv_find_command` finds the first command with that name. -/
theorem find_spec {w : List Byte} {p : Nat} (h : IsStr s.rxBuffer p w) (cmds : List CliShellCmd) :
    Reads (prvFindCommand p cmds) s (cmds.find? fun cmd => cmd.command = w) := by
  induction cmds generalizing s with
  | nil => exact reads_pure _
  | cons cmd cmds ih =>
    refine (strcmp_spec cmd.noNul h).bind fun m hm => ?_
    by_cases hw : cmd.command = w
    · simp only [hw, decide_true, if_true, List.find?_cons]
      exact reads_pure _
    · simp only [hw, decide_false, Bool.false_eq_true, if_false, List.find?_cons]
      exact ih (h.congr (Nat.lt_succ_self _) fun k _ => by rw [hm])

theorem cstr_spec {w : List Byte} {n p : Nat} (h : IsStr s.rxBuffer p w) (hn : w.length < n) :
    Reads (cstr n p) s w := by
  induction n generalizing p w s with
  | zero => omega
  | succ n ih =>
    refine (reads_rd p).bind fun m hm => ?_
    cases w with
    | nil =>
      rw [isStr_nil.mp h, if_pos rfl]
      exact reads_pure _
    | cons x w =>
      obtain ⟨hx, hne, hw⟩ := isStr_cons.mp h
      rw [hx, if_neg hne]
      refine Reads.bind (ih (hw.congr (Nat.lt_succ_self _) fun k _ => by rw [hm]) ?_) fun m' hm' => reads_pure _
      rw [List.length_cons] at hn
      omega

/-! ## The loop of `prv_process` -/

/-- `next_arg` points to the word `w` that is being read, up to index `i`. -/
def Pending (m : Mem Unit Byte) (i : Nat) (w : List Byte) : Option Nat → Prop
  | none => w = []
  | some p => w ≠ [] ∧ p + w.length = i ∧ m.Holds ⟨(), p⟩ w

/-- The pointers are those of the words, which end below `n`. -/
def Points (m : Mem Unit Byte) (n : Nat) : List Nat → List (List Byte) → Prop :=
  List.Forall₂ fun p w => IsStr m p w ∧ p + w.length < n

theorem Points.congr {m m' : Mem Unit Byte} {n n' i : Nat} {ps : List Nat} {ws : List (List Byte)}
    (h : Points m n ps ws) (hi : n ≤ i) (hn : n ≤ n') (hm : ∀ k < i, m'.data () k = m.data () k) :
    Points m' n' ps ws :=
  h.imp fun _ _ hp => ⟨hp.1.congr (Nat.lt_of_lt_of_le hp.2 hi) hm, Nat.lt_of_lt_of_le hp.2 hn⟩

/-- A NUL at the end of the word makes it a string. -/
theorem Pending.seal {m : Mem Unit Byte} {i : Nat} {w : List Byte} {nextArg : Option Nat}
    (h : Pending m i w nextArg) (hspace : space ∉ w) (hnul : 0 ∉ w) :
    Points (m.store ⟨(), i⟩ 0) (i + 1) nextArg.toList (words space w) := by
  rw [words_of_notMem hspace]
  cases nextArg with
  | none =>
    rw [if_pos (show w = [] from h)]
    exact .nil
  | some p =>
    obtain ⟨hne, hlen, hholds⟩ := h
    rw [if_neg hne]
    refine .cons ⟨⟨Mem.holds_append.mpr ⟨hholds.congr fun k _ hk => ?_, ?_⟩, hnul⟩, by omega⟩ .nil
    · exact if_neg fun hk' => by have := hk'.2; simp only at hk this; omega
    · refine Mem.holds_cons.mpr ⟨if_pos ⟨rfl, ?_⟩, Mem.holds_nil⟩
      exact hlen

/-- A character that is no space goes on with the word. -/
theorem Pending.next {m : Mem Unit Byte} {i : Nat} {w : List Byte} {nextArg : Option Nat}
    (h : Pending m i w nextArg) : Pending m (i + 1) (w ++ [m.data () i]) (nextArg.or (some i)) := by
  cases nextArg with
  | none =>
    rw [show w = [] from h]
    exact ⟨by simp, rfl, rfl⟩
  | some p =>
    obtain ⟨hne, hlen, hholds⟩ := h
    refine ⟨by simp, by simp; omega, Mem.holds_append.mpr ⟨hholds, Mem.holds_cons.mpr ⟨?_, Mem.holds_nil⟩⟩⟩
    exact congrArg (m.data ()) hlen

/-- At most one word is being read, so there is room for it if there is any. -/
theorem take_words {w : List Byte} (ws : List (List Byte)) {n : Nat} (hspace : space ∉ w)
    (hn : n < shellMaxArgs) : (words space w ++ ws).take (shellMaxArgs - n) =
      words space w ++ ws.take (shellMaxArgs - (n + (words space w).length)) := by
  have hle : (words space w).length ≤ shellMaxArgs - n := by
    rw [words_of_notMem hspace]
    split <;> simp only [List.length_nil, List.length_singleton] <;> omega
  rw [List.take_append, List.take_of_length_le hle, Nat.sub_sub]

section PrvArgs

variable {n i : Nat} {argv : List Nat} {nextArg : Option Nat} (hargc : argv.length < shellMaxArgs)
include hargc

/-- One round of the loop: a separator, and the last character, end the word. -/
theorem prvArgs_sep (h : s.rxBuffer.data () i = space ∨ s.rxBuffer.data () i = newline ∨ i = s.rxSize - 1) :
    call (prvArgs (n + 1) i argv nextArg) s =
      call (prvArgs n (i + 1) (argv ++ nextArg.toList) none)
        { s with rxBuffer := (s.rxBuffer.touch ⟨(), i⟩).store ⟨(), i⟩ 0 } := by
  simp only [prvArgs, hargc, if_true, call_bind, call_get, call_rd, h, call_wr]

theorem prvArgs_char (h : ¬ (s.rxBuffer.data () i = space ∨ s.rxBuffer.data () i = newline ∨ i = s.rxSize - 1)) :
    call (prvArgs (n + 1) i argv nextArg) s =
      call (prvArgs n (i + 1) argv (nextArg.or (some i))) { s with rxBuffer := s.rxBuffer.touch ⟨(), i⟩ } := by
  simp only [prvArgs, hargc, if_true, call_bind, call_get, call_rd, h, if_false]

end PrvArgs

/-- Without room in `argv` the loop is over. -/
theorem prvArgs_full {n i : Nat} {argv : List Nat} {nextArg : Option Nat} (ws : List (List Byte))
    (h : ¬ argv.length < shellMaxArgs) :
    ∃ m ps, call (prvArgs n i argv nextArg) s = (argv ++ ps, { s with rxBuffer := m }) ∧
      (∀ k < i, m.data () k = s.rxBuffer.data () k) ∧
      Points m s.rxSize ps (ws.take (shellMaxArgs - argv.length)) := by
  refine ⟨s.rxBuffer, [], ?_, fun _ _ => rfl, ?_⟩
  · rw [List.append_nil]
    cases n with
    | zero => rfl
    | succ n => simp only [prvArgs, h, if_false, call_pure]
  · rw [Nat.sub_eq_zero_of_le (Nat.le_of_not_lt h), List.take_zero]
    exact .nil

/-- The loop on the rest of a line, the character that ended it included: it adds pointers to the words
read, as far as `argv` has room. -/
theorem prvArgs_spec {rest w : List Byte} {i : Nat} {argv : List Nat} {nextArg : Option Nat}
    (hsize : s.rxSize = i + rest.length + 1) (hrest : s.rxBuffer.Holds ⟨(), i⟩ rest)
    (hw : Pending s.rxBuffer i w nextArg) (hspace : space ∉ w) (hnul : 0 ∉ w ++ rest)
    (hline : newline ∉ rest) :
    ∃ m ps, call (prvArgs (rest.length + 1) i argv nextArg) s = (argv ++ ps, { s with rxBuffer := m }) ∧
      (∀ k < i, m.data () k = s.rxBuffer.data () k) ∧
      Points m s.rxSize ps ((words space (w ++ rest)).take (shellMaxArgs - argv.length)) := by
  induction rest generalizing s w i argv nextArg with
  | nil =>
    by_cases hargc : argv.length < shellMaxArgs
    · -- The last character ends the last word.
      have hlast : i = s.rxSize - 1 := by rw [hsize, List.length_nil]; rfl
      rw [List.append_nil] at hnul ⊢
      refine ⟨(s.rxBuffer.touch ⟨(), i⟩).store ⟨(), i⟩ 0, nextArg.toList, ?_, ?_, ?_⟩
      · rw [List.length_nil, prvArgs_sep hargc (Or.inr (Or.inr hlast))]
        rfl
      · exact fun k hk => if_neg fun hk' => Nat.ne_of_lt hk hk'.2
      · have hseal := hw.seal hspace hnul
        have htake := take_words [] hspace hargc
        rw [List.append_nil, List.take_nil, List.append_nil] at htake
        rw [htake]
        exact hseal.congr (Nat.le_refl _) (by omega) fun k _ => rfl
    · exact prvArgs_full _ hargc
  | cons c rest ih =>
    by_cases hargc : argv.length < shellMaxArgs
    · obtain ⟨hc, hrest⟩ := Mem.holds_cons.mp hrest
      have hc : s.rxBuffer.data () i = c := hc
      rw [List.mem_append, List.mem_cons, not_or, not_or] at hnul
      obtain ⟨hw0, hc0, hrest0⟩ := hnul
      rw [List.mem_cons, not_or] at hline
      rw [List.length_cons] at hsize
      by_cases hsp : c = space
      · -- A space ends the word that is being read.
        have hseal := hw.seal hspace hw0
        obtain ⟨m, ps, hcall, hbelow, hps⟩ := @ih
          { s with rxBuffer := (s.rxBuffer.touch ⟨(), i⟩).store ⟨(), i⟩ 0 } [] (i + 1)
          (argv ++ nextArg.toList) none (by simp only; omega)
          (hrest.congr fun k hk _ => if_neg fun hk' => Nat.ne_of_gt (Nat.lt_of_succ_le hk) hk'.2)
          rfl List.not_mem_nil hrest0 hline.2
        refine ⟨m, nextArg.toList ++ ps, ?_, fun k hk => ?_, ?_⟩
        · rw [List.length_cons, prvArgs_sep hargc (Or.inl (hc.trans hsp)), hcall, List.append_assoc]
        · exact (hbelow k (Nat.lt_succ_of_lt hk)).trans (if_neg fun hk' => Nat.ne_of_lt hk hk'.2)
        · rw [hsp, words_append_sep hspace, take_words _ hspace hargc]
          refine List.rel_append (hseal.congr (Nat.le_refl _) (by omega) hbelow) ?_
          rw [List.nil_append, List.length_append, hseal.length_eq] at hps
          exact hps
      · -- Any other character goes on with it.
        have hnext := hw.next
        rw [hc] at hnext
        have hspace' : space ∉ w ++ [c] := by
          rw [List.mem_append, List.mem_singleton, not_or]
          exact ⟨hspace, Ne.symm hsp⟩
        have hnul' : 0 ∉ (w ++ [c]) ++ rest := by
          simp only [List.mem_append, List.mem_singleton, not_or]
          exact ⟨⟨hw0, hc0⟩, hrest0⟩
        have hlast : i ≠ s.rxSize - 1 := by omega
        obtain ⟨m, ps, hcall, hbelow, hps⟩ := @ih { s with rxBuffer := s.rxBuffer.touch ⟨(), i⟩ } (w ++ [c])
          (i + 1) argv (nextArg.or (some i)) (by simp only; omega) hrest hnext hspace' hnul' hline.2
        refine ⟨m, ps, ?_, fun k hk => hbelow k (Nat.lt_succ_of_lt hk), ?_⟩
        · have hmid : ¬ (s.rxBuffer.data () i = space ∨ s.rxBuffer.data () i = newline ∨ i = s.rxSize - 1) := by
            rw [hc]
            exact not_or.mpr ⟨hsp, not_or.mpr ⟨Ne.symm hline.1, hlast⟩⟩
          rw [List.length_cons, prvArgs_char hargc hmid, hcall]
        · rw [List.append_assoc] at hps
          exact hps
    · exact prvArgs_full _ hargc

/-! ## The end of a line -/

/-- `x` changes at most the record of accesses and what was sent. -/
def Quiet {α : Type} (x : ShellM α) (s : ShellContext) : Prop :=
  ∃ m out, m.data = s.rxBuffer.data ∧ (call x s).2 = { s with rxBuffer := m, sent := out }

theorem quiet_pure {α : Type} (a : α) : Quiet (pure a) s := ⟨s.rxBuffer, s.sent, rfl, rfl⟩

theorem quiet_rd (i : Nat) : Quiet (rd i) s := ⟨s.rxBuffer.touch ⟨(), i⟩, s.sent, rfl, rfl⟩

theorem Quiet.bind {α β : Type} {x : ShellM α} {f : α → ShellM β} (h : Quiet x s)
    (hf : ∀ a m out, Quiet (f a) { s with rxBuffer := m, sent := out }) : Quiet (x >>= f) s := by
  obtain ⟨m, out, hm, hx⟩ := h
  obtain ⟨m', out', hm', hf⟩ := hf (call x s).1 m out
  refine ⟨m', out', hm'.trans hm, ?_⟩
  rw [call_bind, hx, hf]

theorem quiet_echoStr (str : List Byte) : Quiet (prvEchoStr str) s :=
  ⟨s.rxBuffer, s.sent ++ str, rfl, rfl⟩

theorem quiet_sendChar (c : Byte) : Quiet (prvSendChar c) s := by
  refine Quiet.bind ⟨s.rxBuffer, s.sent, rfl, rfl⟩ fun a m out => ?_
  split
  · exact quiet_echoStr _
  · exact quiet_pure _

theorem quiet_echo (c : Byte) : Quiet (prvEcho c) s := by
  rw [prvEcho]
  split
  · exact (quiet_sendChar _).bind fun _ _ _ => quiet_sendChar _
  · split
    · exact (quiet_sendChar _).bind fun _ _ _ => (quiet_sendChar _).bind fun _ _ _ => quiet_sendChar _
    · exact quiet_sendChar _

theorem quiet_cstr (n i : Nat) : Quiet (cstr n i) s := by
  induction n generalizing i s with
  | zero => exact (quiet_rd i).bind fun _ _ _ => quiet_pure _
  | succ n ih =>
    refine (quiet_rd i).bind fun c _ _ => ?_
    by_cases hc : c = 0
    · rw [if_pos hc]
      exact quiet_pure _
    · rw [if_neg hc]
      exact (ih (i + 1)).bind fun _ _ _ => quiet_pure _

/-- The lookup of a line's words. -/
structure LooksUp (gShellCommands : List CliShellCmd) (ws : List (List Byte)) (d : Dispatch) : Prop where
  argc : d.argc = ws.length
  argv : d.argv.map Arg.str = ws
  cmd : d.cmd = gShellCommands.find? fun cmd => cmd.command = ws.headD []

theorem map_argStrings {n : Nat} {ps : List Nat} {ws : List (List Byte)} (hn : n ≤ shellRxBufferSize)
    (h : Points s.rxBuffer n ps ws) : (argStrings ps s).map Arg.str = ws := by
  induction h with
  | nil => rfl
  | cons hp _ ih =>
    obtain ⟨m, -, hcall⟩ := cstr_spec hp.1 (Nat.lt_sub_iff_add_lt'.mpr (Nat.lt_of_lt_of_le hp.2 hn))
    exact List.cons_eq_cons.mpr ⟨congrArg Prod.fst hcall, ih⟩

variable {gShellCommands : List CliShellCmd}

theorem quiet_echoFull (n : Nat) : Quiet (prvEchoFull n) s := by
  rw [prvEchoFull]
  split
  · exact quiet_echo _
  · exact quiet_pure _

variable (gShellCommands) in
/-- The words looked up, if there are any. -/
theorem prvDispatch_spec {n : Nat} {ps : List Nat} {ws : List (List Byte)} (hn : n ≤ shellRxBufferSize)
    (h : Points s.rxBuffer n ps ws) :
    ∃ m out ds, (call (prvDispatch gShellCommands ps) s).2 =
      { s with rxBuffer := m, sent := out, dispatched := s.dispatched ++ ds } ∧
      List.Forall₂ (LooksUp gShellCommands) (if ws = [] then [] else [ws]) ds := by
  cases h with
  | nil => exact ⟨s.rxBuffer, s.sent, [], by rw [List.append_nil]; rfl, .nil⟩
  | @cons p w ps ws hp hps =>
    obtain ⟨m, -, hfind⟩ := find_spec hp.1 gShellCommands
    generalize hcmd : gShellCommands.find? (fun cmd => cmd.command = w) = cmd at hfind
    let d : Dispatch := ⟨ps.length + 1, argStrings (p :: ps) s, cmd⟩
    have hd : LooksUp gShellCommands (w :: ws) d :=
      ⟨congrArg (· + 1) hps.length_eq, map_argStrings hn (.cons hp hps), hcmd.symm⟩
    obtain ⟨m', out, -, hanswer⟩ : Quiet (prvAnswer (argStrings (p :: ps) s) p cmd)
        { s with rxBuffer := m, dispatched := s.dispatched ++ [d] } := by
      cases cmd with
      | none =>
        exact (quiet_echoStr _).bind fun _ _ _ => (quiet_cstr _ _).bind fun _ _ _ => (quiet_echoStr _).bind
          fun _ _ _ => (quiet_echo _).bind fun _ _ _ => quiet_echoStr _
      | some cmd => exact quiet_echoStr _
    refine ⟨m', out, [d], ?_, .cons hd .nil⟩
    simp only [prvDispatch, call_bind, call_modifyGet, hfind, call_modify]
    exact hanswer

/-- The commands of a list of lines. -/
def commandLines (lines : List (List Byte)) : List (List (List Byte)) :=
  (lines.map fun line => (words space line).take shellMaxArgs).filter (· ≠ [])

theorem commandLines_append (xs ys : List (List Byte)) :
    commandLines (xs ++ ys) = commandLines xs ++ commandLines ys := by
  rw [commandLines, List.map_append, List.filter_append]
  rfl

variable (gShellCommands) in
/-- The line's words are looked up, and the buffer is empty then. -/
theorem prvProcessLine_spec {line : List Byte} (hsize : s.rxSize = line.length + 1)
    (hshort : line.length < shellRxBufferSize) (hholds : s.rxBuffer.Holds ⟨(), 0⟩ line)
    (hnl : newline ∉ line) (hnul : 0 ∉ line) :
    ∃ m out ds, (call (prvProcessLine gShellCommands) s).2 =
      { s with rxSize := 0, rxBuffer := m, sent := out, dispatched := s.dispatched ++ ds } ∧
      List.Forall₂ (LooksUp gShellCommands) (commandLines [line]) ds := by
  have hwords : commandLines [line] =
      if (words space line).take shellMaxArgs = [] then [] else [(words space line).take shellMaxArgs] := by
    rw [commandLines, List.map_singleton, List.filter_singleton]
    simp
  obtain ⟨m, ps, hargs, -, hps⟩ := @prvArgs_spec s line [] 0 [] none (by rw [hsize, Nat.zero_add]) hholds
    rfl List.not_mem_nil hnul hnl
  rw [List.nil_append, List.length_nil, Nat.sub_zero, hsize] at hps
  rw [← hsize] at hargs
  obtain ⟨m₁, out₁, hm₁, hecho⟩ : Quiet (prvEchoFull s.rxSize) { s with rxBuffer := m } := quiet_echoFull _
  obtain ⟨m₂, out₂, ds, hdispatch, hds⟩ := prvDispatch_spec gShellCommands
    (s := { s with rxBuffer := m₁, sent := out₁ }) hshort (hps.congr (Nat.le_refl _) (Nat.le_refl _) fun k _ => by rw [hm₁])
  refine ⟨clearRxBuffer m₂, out₂ ++ shellPrompt, ds, ?_, by rw [hwords]; exact hds⟩
  simp only [prvProcessLine, call_bind, call_get, hargs, List.nil_append, hecho, hdispatch]
  rfl

/-! ## Characters -/

/-- The context holds the line that was not ended yet. -/
structure Holding (s : ShellContext) (line : List Byte) : Prop where
  booted : s.booted = true
  size : s.rxSize = line.length
  holds : s.rxBuffer.Holds ⟨(), 0⟩ line
  short : line.length < shellRxBufferSize
  noNewline : newline ∉ line
  noNul : 0 ∉ line

/-- Other accesses do not matter. -/
theorem Holding.congr {t : ShellContext} {line : List Byte} (h : Holding s line) (hb : t.booted = s.booted)
    (hn : t.rxSize = s.rxSize) (hm : t.rxBuffer.data = s.rxBuffer.data) : Holding t line :=
  ⟨hb.trans h.booted, hn.trans h.size, h.holds.congr fun _ _ _ => by rw [hm], h.short, h.noNewline, h.noNul⟩

theorem holding_nil (hb : s.booted = true) (hn : s.rxSize = 0) : Holding s [] :=
  ⟨hb, hn, Mem.holds_nil, by decide, List.not_mem_nil, List.not_mem_nil⟩

/-- The context with another character in the buffer. -/
def ShellContext.withChar (s : ShellContext) (c : Byte) : ShellContext :=
  { s with rxBuffer := s.rxBuffer.store ⟨(), s.rxSize⟩ c, rxSize := s.rxSize + 1 }

theorem withChar_holds {line : List Byte} (h : Holding s line) (c : Byte) :
    (s.withChar c).rxBuffer.Holds ⟨(), 0⟩ line := by
  refine h.holds.congr fun k _ hk => if_neg fun hk' => ?_
  have hlt : k < line.length := by
    rw [← Nat.zero_add line.length]
    exact hk
  rw [hk'.2] at hlt
  exact Nat.ne_of_lt hlt h.size

theorem Holding.withChar {line : List Byte} {c : Byte} (h : Holding s line)
    (hshort : line.length + 1 < shellRxBufferSize) (hnl : c ≠ newline) (hc : c ≠ 0) :
    Holding (s.withChar c) (line ++ [c]) := by
  refine ⟨h.booted, ?_, Mem.holds_append.mpr ⟨withChar_holds h c, Mem.holds_cons.mpr ⟨?_, Mem.holds_nil⟩⟩, ?_, ?_, ?_⟩
  · rw [List.length_append, List.length_singleton, ← h.size]
    rfl
  · exact if_pos ⟨rfl, by simp [h.size]⟩
  · rw [List.length_append, List.length_singleton]
    exact hshort
  · rw [List.mem_append, List.mem_singleton, not_or]
    exact ⟨h.noNewline, Ne.symm hnl⟩
  · rw [List.mem_append, List.mem_singleton, not_or]
    exact ⟨h.noNul, Ne.symm hc⟩

/-- The test of `prv_process` behind a character. -/
theorem prvProcess_withChar (s : ShellContext) (c : Byte) :
    (call (prvProcess gShellCommands) (s.withChar c)).2 =
      if c ≠ newline ∧ s.rxSize + 1 < shellRxBufferSize then
        { s.withChar c with rxBuffer := (s.withChar c).rxBuffer.touch ⟨(), s.rxSize⟩ }
      else
        (call (prvProcessLine gShellCommands)
          { s.withChar c with rxBuffer := (s.withChar c).rxBuffer.touch ⟨(), s.rxSize⟩ }).2 := by
  have hlast : (s.withChar c).rxBuffer.data () s.rxSize = c := if_pos ⟨rfl, rfl⟩
  have hpred : sizePred (s.withChar c).rxSize = s.rxSize := rfl
  have hfull : prvIsRxBufferFull (s.withChar c) = false ↔ s.rxSize + 1 < shellRxBufferSize := by
    rw [prvIsRxBufferFull, decide_eq_false_iff_not, Nat.not_le]
    rfl
  simp only [prvProcess, prvLastChar, call_bind, call_get, hpred, call_rd, hlast, call_ite, hfull]
  split <;> rfl

/-- What a character means. -/
def keyOf (c : Byte) : Key Byte :=
  if c = carriageReturn then .ignored
  else if c = backspace then .backspace
  else if c = newline then .enter
  else .char c

theorem call_receiveChar {line : List Byte} (h : Holding s line) (c : Byte) :
    (call (cliShellReceiveChar gShellCommands c) s).2 =
      if c = carriageReturn then s
      else if c = backspace then
        if 0 < s.rxSize then
          { s with rxBuffer := s.rxBuffer.store ⟨(), s.rxSize - 1⟩ 0, rxSize := s.rxSize - 1 }
        else s
      else (call (prvProcess gShellCommands) (s.withChar c)).2 := by
  have hfull : prvIsRxBufferFull s = false := by
    rw [prvIsRxBufferFull, h.size]
    exact decide_eq_false (Nat.not_le.mpr h.short)
  have hcond : (c = carriageReturn ∨ prvIsRxBufferFull s = true ∨ s.booted = false) ↔ c = carriageReturn := by
    rw [hfull, h.booted]
    simp
  simp only [cliShellReceiveChar, call_bind, call_get, hcond, call_ite]
  split
  · rfl
  · split
    · by_cases hpos : 0 < s.rxSize
      · rw [if_pos hpos]
        exact (congrArg (fun x => (call x s).2) (if_pos hpos)).trans rfl
      · rw [if_neg hpos]
        exact (congrArg (fun x => (call x s).2) (if_neg hpos)).trans rfl
    · rfl

theorem Holding.erase {line : List Byte} (h : Holding s line) :
    Holding { s with rxBuffer := s.rxBuffer.store ⟨(), s.rxSize - 1⟩ 0, rxSize := s.rxSize - 1 }
      line.dropLast := by
  have hsplit : line = line.dropLast ++ line.drop (line.length - 1) := by
    rw [List.dropLast_eq_take, List.take_append_drop]
  have hlen : line.dropLast.length = s.rxSize - 1 := by rw [List.length_dropLast, h.size]
  have hholds := h.holds
  rw [hsplit, Mem.holds_append] at hholds
  refine ⟨h.booted, hlen.symm, hholds.1.congr fun k _ hk => if_neg fun hk' => ?_, ?_,
    fun hm => h.noNewline ((List.dropLast_sublist line).subset hm),
    fun hm => h.noNul ((List.dropLast_sublist line).subset hm)⟩
  · have hlt : k < line.dropLast.length := by
      rw [← Nat.zero_add line.dropLast.length]
      exact hk
    rw [hlen, hk'.2] at hlt
    exact Nat.lt_irrefl _ hlt
  · rw [List.length_dropLast]
    exact Nat.lt_of_le_of_lt (Nat.sub_le _ _) h.short

variable (gShellCommands) in
/-- A character: what it does to the line, and the commands of the lines it ends. -/
theorem Holding.receive {e : Editor Byte} (h : Holding s e.typed) {c : Byte} (hc : c ≠ 0) :
    ∃ ds, (call (cliShellReceiveChar gShellCommands c) s).2.dispatched = s.dispatched ++ ds ∧
      Holding (call (cliShellReceiveChar gShellCommands c) s).2
        (e.key (some shellRxBufferSize) (keyOf c)).typed ∧
      ∃ lines, (e.key (some shellRxBufferSize) (keyOf c)).lines = e.lines ++ lines ∧
        List.Forall₂ (LooksUp gShellCommands) (commandLines lines) ds := by
  have hnone : ∀ (t : ShellContext) (line : List Byte), Holding t line → t.dispatched = s.dispatched →
      ∃ ds, t.dispatched = s.dispatched ++ ds ∧ Holding t line ∧
        ∃ lines, e.lines = e.lines ++ lines ∧
          List.Forall₂ (LooksUp gShellCommands) (commandLines lines) ds :=
    fun t line hh ht => ⟨[], by rw [ht, List.append_nil], hh, [], by rw [List.append_nil], .nil⟩
  rw [call_receiveChar h, keyOf]
  by_cases hcr : c = carriageReturn
  · rw [if_pos hcr, if_pos hcr]
    exact hnone _ _ h rfl
  rw [if_neg hcr, if_neg hcr]
  by_cases hbs : c = backspace
  · rw [if_pos hbs, if_pos hbs]
    by_cases hpos : 0 < s.rxSize
    · rw [if_pos hpos]
      exact hnone _ _ h.erase rfl
    · rw [if_neg hpos]
      have hempty : e.typed = [] := List.eq_nil_of_length_eq_zero (by have := h.size; omega)
      rw [Editor.key, hempty]
      exact hnone _ _ (holding_nil h.booted (by rw [h.size, hempty]; rfl)) rfl
  rw [if_neg hbs, if_neg hbs, prvProcess_withChar, h.size]
  by_cases hgo : c ≠ newline ∧ e.typed.length + 1 < shellRxBufferSize
  · rw [if_pos hgo, if_neg hgo.1, Editor.key, if_neg fun hl => Nat.ne_of_gt hgo.2 (Option.some.inj hl)]
    have hh := h.withChar hgo.2 hgo.1 hc
    exact hnone _ _ (hh.congr (by rfl) (by rfl) (by rfl)) rfl
  · have hend : e.key (some shellRxBufferSize) (if c = newline then .enter else .char c) = e.endLine := by
      by_cases hnl : c = newline
      · rw [if_pos hnl]
        rfl
      · have hfull : some shellRxBufferSize = some (e.typed.length + 1) := by
          have hshort := h.short
          have hlong : ¬ e.typed.length + 1 < shellRxBufferSize := fun hl => hgo ⟨hnl, hl⟩
          rw [Nat.le_antisymm (Nat.le_of_not_lt hlong) hshort]
        rw [if_neg hnl, Editor.key, if_pos hfull]
    obtain ⟨m, out, ds, hcall, hds⟩ := prvProcessLine_spec gShellCommands
      (s := { s.withChar c with rxBuffer := (s.withChar c).rxBuffer.touch ⟨(), s.rxSize⟩ }) (congrArg (· + 1) h.size)
      h.short (withChar_holds h c) h.noNewline h.noNul
    rw [if_neg hgo, hend, ← h.size, hcall]
    exact ⟨ds, rfl, holding_nil h.booted rfl, [e.typed], rfl, hds⟩

/-! ## Streams -/

/-- What a stream makes of an editor whose lines have that limit. -/
def typing (limit : Option Nat) (cs : List Byte) : Editor Byte :=
  cs.foldl (fun e c => e.key limit (keyOf c)) .empty

variable (gShellCommands) in
theorem receive_lines {e : Editor Byte} {cs : List Byte} (h : Holding s e.typed) (hcs : 0 ∉ cs) :
    ∃ ds lines, (call (shellReceive gShellCommands cs) s).2.dispatched = s.dispatched ++ ds ∧
      (cs.foldl (fun e c => e.key (some shellRxBufferSize) (keyOf c)) e).lines = e.lines ++ lines ∧
      List.Forall₂ (LooksUp gShellCommands) (commandLines lines) ds := by
  induction cs generalizing s e with
  | nil => exact ⟨[], [], by rw [List.append_nil]; rfl, by rw [List.append_nil]; rfl, .nil⟩
  | cons c cs ih =>
    rw [List.mem_cons, not_or] at hcs
    obtain ⟨ds, hd, hh, lines, hl, hds⟩ := h.receive gShellCommands (Ne.symm hcs.1)
    obtain ⟨ds', lines', hd', hl', hds'⟩ := ih hh hcs.2
    refine ⟨ds ++ ds', lines ++ lines', ?_, ?_, ?_⟩
    · rw [shellReceive, call_bind, hd', hd, List.append_assoc]
    · rw [List.foldl_cons, hl', hl, List.append_assoc]
    · rw [commandLines_append]
      exact List.rel_append hds hds'

theorem holding_boot (hb : s.booted = true) : Holding (call cliShellBoot s).2 [] := holding_nil hb rfl

end

/-- For every stream of characters other than NUL, fed to a shell that was booted: the commands looked up
are, in order, the first 16 words of each line that has a word, where a line ends with a
newline or with its 256th character. -/
theorem shell_lines (gShellCommands : List CliShellCmd) (s : ShellContext) (cs : List Byte)
    (hb : s.booted = true) (hcs : 0 ∉ cs) :
    ∃ ds, (call (shellReceive gShellCommands cs) (call cliShellBoot s).2).2.dispatched = s.dispatched ++ ds ∧
      List.Forall₂ (LooksUp gShellCommands) (commandLines (typing (some shellRxBufferSize) cs).lines) ds := by
  obtain ⟨ds, lines, hd, hl, hds⟩ :=
    receive_lines gShellCommands (e := .empty) (holding_boot hb) hcs
  refine ⟨ds, hd, ?_⟩
  rw [typing, hl]
  exact hds

/-- A shell before it is booted, with the output wired up. -/
def wired : ShellContext := ⟨true, 0, ⟨fun _ _ => 0, []⟩, [], []⟩

/-- The command `reboot`. -/
def rebootCmd : CliShellCmd := ⟨text "reboot", by decide, fun _ => text "Rebooting...\n"⟩

theorem shell_lines_reboot :
    ∃ ds, (call (shellReceive [rebootCmd] (text "reboot\n")) (call cliShellBoot wired).2).2.dispatched =
        [] ++ ds ∧
      List.Forall₂ (LooksUp [rebootCmd])
        (commandLines (typing (some shellRxBufferSize) (text "reboot\n")).lines) ds :=
  shell_lines [rebootCmd] wired (text "reboot\n") rfl (by decide)

/-- A line of 256 characters that was not ended: it is looked up, without its last character. -/
def longLine : List Byte := List.replicate 249 space ++ text "reboots"

/-- Not only newlines end a line: `reboots`, behind 249 spaces, looks up `reboot`. -/
theorem not_shell_lines : ¬ ∀ (gShellCommands : List CliShellCmd) (s : ShellContext) (cs : List Byte),
    s.booted = true → 0 ∉ cs →
    ∃ ds, (call (shellReceive gShellCommands cs) (call cliShellBoot s).2).2.dispatched = s.dispatched ++ ds ∧
      List.Forall₂ (LooksUp gShellCommands) (commandLines (typing none cs).lines) ds := by
  intro h
  have hcs : 0 ∉ longLine := by decide +kernel
  obtain ⟨ds, hd, hds⟩ := h [rebootCmd] wired longLine rfl hcs
  obtain ⟨ds', lines, hd', hl, hds'⟩ :=
    receive_lines [rebootCmd] (e := .empty) (holding_boot (s := wired) rfl) hcs
  have hcmds : commandLines lines = [[text "reboot"]] := by
    have hlines : (typing (some shellRxBufferSize) longLine).lines = lines := hl
    rw [← hlines]
    decide +kernel
  have hnone : commandLines (typing none longLine).lines = [] := by decide +kernel
  rw [hnone] at hds
  rw [hcmds] at hds'
  have hlen := hds.length_eq
  have hlen' := hds'.length_eq
  rw [List.append_cancel_left (hd.symm.trans hd')] at hlen
  exact absurd (hlen.trans hlen'.symm) (by decide)

end Rs485.Shell
