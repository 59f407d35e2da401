import Rs485.Proof.Shell

/-!
# The shell stays inside its buffer

Whatever the characters, NULs included: between two of them there is room for one more, no
access is made outside `rx_buffer`, and a pointer in `argv` points to a string that ends in
it. The loop of `prv_process` puts a NUL behind a word before it notes the word's pointer, and never
stores anything else, so that the string still ends (`Ends`) when the loop is through
(`prvArgs_ends`), also where it stopped at the 16th word.
-/

namespace Rs485.Shell

open Rs485.Framework

section

variable {s t : ShellContext}

/-- From `p` on there is a NUL in the buffer. -/
def Ends (m : Mem Unit Byte) (p : Nat) : Prop := ∃ k, p ≤ k ∧ k < shellRxBufferSize ∧ m.data () k = 0

theorem Ends.lt {m : Mem Unit Byte} {p : Nat} (h : Ends m p) : p < shellRxBufferSize := by
  obtain ⟨k, hle, hlt, -⟩ := h
  exact Nat.lt_of_le_of_lt hle hlt

/-- If it is not at `p`, it is behind it. -/
theorem Ends.succ {m : Mem Unit Byte} {p : Nat} (h : Ends m p) (hne : m.data () p ≠ 0) :
    Ends m (p + 1) := by
  obtain ⟨k, hle, hlt, hk⟩ := h
  refine ⟨k, Nat.lt_of_le_of_ne hle ?_, hlt, hk⟩
  rintro rfl
  exact hne hk

/-- Another NUL does no harm. -/
theorem Ends.store {m : Mem Unit Byte} {p : Nat} (h : Ends m p) (i : Nat) : Ends (m.store ⟨(), i⟩ 0) p := by
  obtain ⟨k, hle, hlt, hk⟩ := h
  refine ⟨k, hle, hlt, ?_⟩
  rw [Mem.store_data]
  split
  · rfl
  · exact hk

/-! ## Reading -/

/-- `t` is `s`, up to what was sent and read, and nothing was read outside the buffer. -/
structure Kept (s t : ShellContext) : Prop where
  within : t.rxBuffer.Within () shellRxBufferSize
  data : t.rxBuffer.data = s.rxBuffer.data
  size : t.rxSize = s.rxSize
  dispatched : t.dispatched = s.dispatched

theorem kept_echoStr (str : List Byte) : Preserves (Kept s) (prvEchoStr str) :=
  fun _ h => { h with }

theorem kept_sendChar (c : Byte) : Preserves (Kept s) (prvSendChar c) := by
  refine Preserves.seq (fun _ h => h) fun b => Meets.ite (fun _ => kept_echoStr _) fun _ => Preserves.pure _

theorem kept_echo (c : Byte) : Preserves (Kept s) (prvEcho c) := by
  refine Meets.ite (fun _ => ?_) fun _ => Meets.ite (fun _ => ?_) fun _ => kept_sendChar _
  · exact (kept_sendChar _).seq fun _ => kept_sendChar _
  · exact (kept_sendChar _).seq fun _ => (kept_sendChar _).seq fun _ => kept_sendChar _

theorem kept_rd {i : Nat} (hi : i < shellRxBufferSize) :
    Meets (Kept s) (rd i) fun c t => c = s.rxBuffer.data () i ∧ Kept s t :=
  fun _ h => ⟨congrFun (congrFun h.data ()) i,
    ⟨Mem.within_touch.mpr ⟨fun _ => hi, h.within⟩, h.data, h.size, h.dispatched⟩⟩

/-- The string at `p` ends in the buffer if and only if there is a NUL. -/
theorem length_cstr {n p : Nat} (hn : p + n = shellRxBufferSize) :
    p + (call (cstr n p) s).1.length < shellRxBufferSize ↔ Ends s.rxBuffer p := by
  induction n generalizing s p with
  | zero => exact iff_of_false (Nat.not_lt.mpr (Nat.le_of_eq hn.symm)) fun h => by have := h.lt; omega
  | succ n ih =>
    have hlt : p < shellRxBufferSize := by omega
    rw [cstr, call_bind, call_rd]
    by_cases hc : s.rxBuffer.data () p = 0
    · rw [if_pos hc]
      exact iff_of_true hlt ⟨p, Nat.le_refl p, hlt, hc⟩
    · rw [if_neg hc, call_bind, call_pure, List.length_cons, Nat.add_comm _ 1, ← Nat.add_assoc,
        ih (by omega)]
      refine ⟨fun h => ?_, fun h => h.succ hc⟩
      obtain ⟨k, hle, hk⟩ := h
      exact ⟨k, Nat.le_of_succ_le hle, hk⟩

theorem kept_cstr {n p : Nat} (hn : p + n = shellRxBufferSize) (h : Ends s.rxBuffer p) :
    Preserves (Kept s) (cstr n p) := by
  induction n generalizing p with
  | zero => exact absurd h.lt (by omega)
  | succ n ih =>
    refine (kept_rd h.lt).bind fun c => Meets.ite (fun _ _ ht => ht.2) fun hc t ht => ?_
    have hnext := h.succ (by rw [← ht.1]; exact hc)
    exact ih (by omega) hnext t ht.2

/-- A comparison stops at the end of the string, since there is no NUL in the name. -/
theorem kept_strcmp {name : List Byte} {p : Nat} (hname : 0 ∉ name) (h : Ends s.rxBuffer p) :
    Preserves (Kept s) (strcmp name p) := by
  induction name generalizing p with
  | nil => exact (kept_rd h.lt).bind fun c t ht => ht.2
  | cons x name ih =>
    rw [List.mem_cons, not_or] at hname
    refine (kept_rd h.lt).bind fun c => Meets.ite (fun hc t ht => ?_) fun _ t ht => ht.2
    have hne : s.rxBuffer.data () p ≠ 0 := by
      rw [← ht.1, hc]
      exact Ne.symm hname.1
    exact ih hname.2 (h.succ hne) t ht.2

theorem kept_findCommand {p : Nat} (h : Ends s.rxBuffer p) (cmds : List CliShellCmd) :
    Preserves (Kept s) (prvFindCommand p cmds) := by
  induction cmds with
  | nil => exact Preserves.pure _
  | cons cmd cmds ih =>
    exact (kept_strcmp cmd.noNul h).seq fun b => Meets.ite (fun _ => Preserves.pure _) fun _ => ih

theorem kept_answer {p : Nat} (h : Ends s.rxBuffer p) (args : List Arg) (cmd : Option CliShellCmd) :
    Preserves (Kept s) (prvAnswer args p cmd) := by
  cases cmd with
  | some cmd => exact kept_echoStr _
  | none =>
    have hn : p + (shellRxBufferSize - p) = shellRxBufferSize := Nat.add_sub_cancel' (Nat.le_of_lt h.lt)
    refine (kept_echoStr _).seq fun _ => (kept_cstr hn h).seq fun w => ?_
    exact (kept_echoStr _).seq fun _ => (kept_echo _).seq fun _ => kept_echoStr _

/-! ## The loop of `prv_process` -/

/-- The pointers that the loop notes point to strings that end in the buffer. -/
theorem prvArgs_ends {n i : Nat} {argv : List Nat} {nextArg : Option Nat} (hn : i + n = s.rxSize)
    (hsize : s.rxSize ≤ shellRxBufferSize) (hwithin : s.rxBuffer.Within () shellRxBufferSize)
    (hargc : argv.length ≤ shellMaxArgs) (hargv : ∀ p ∈ argv, Ends s.rxBuffer p)
    (hnext : ∀ p ∈ nextArg, p < i) :
    ∃ m ps, call (prvArgs n i argv nextArg) s = (ps, { s with rxBuffer := m }) ∧
      m.Within () shellRxBufferSize ∧ ps.length ≤ shellMaxArgs ∧ ∀ p ∈ ps, Ends m p := by
  induction n generalizing s i argv nextArg with
  | zero => exact ⟨s.rxBuffer, argv, rfl, hwithin, hargc, hargv⟩
  | succ n ih =>
    by_cases hroom : argv.length < shellMaxArgs
    · have hi : i < shellRxBufferSize := by omega
      by_cases hsep : s.rxBuffer.data () i = space ∨ s.rxBuffer.data () i = newline ∨ i = s.rxSize - 1
      · -- The NUL is stored at `i`, behind the word that is noted.
        have hwithin' : ((s.rxBuffer.touch ⟨(), i⟩).store ⟨(), i⟩ 0).Within () shellRxBufferSize :=
          Mem.within_store.mpr ⟨fun _ => hi, Mem.within_touch.mpr ⟨fun _ => hi, hwithin⟩⟩
        have hargc' : (argv ++ nextArg.toList).length ≤ shellMaxArgs := by
          cases nextArg <;> simp only [List.length_append, Option.length_toList] <;> simp <;> omega
        have hargv' : ∀ p ∈ argv ++ nextArg.toList,
            Ends ((s.rxBuffer.touch ⟨(), i⟩).store ⟨(), i⟩ 0) p := by
          intro p hp
          rcases List.mem_append.mp hp with hp | hp
          · exact (hargv p hp).store i
          · exact ⟨i, Nat.le_of_lt (hnext p (Option.mem_toList.mp hp)), hi, if_pos ⟨rfl, rfl⟩⟩
        obtain ⟨m, ps, hcall, h⟩ := @ih { s with rxBuffer := (s.rxBuffer.touch ⟨(), i⟩).store ⟨(), i⟩ 0 }
          (i + 1) _ none (by simp only; omega) hsize hwithin' hargc' hargv' (by simp)
        exact ⟨m, ps, by rw [prvArgs_sep hroom hsep, hcall], h⟩
      · have hwithin' : (s.rxBuffer.touch ⟨(), i⟩).Within () shellRxBufferSize :=
          Mem.within_touch.mpr ⟨fun _ => hi, hwithin⟩
        have hnext' : ∀ p ∈ nextArg.or (some i), p < i + 1 := by
          cases nextArg with
          | none => simp
          | some q =>
            intro p hp
            exact Nat.lt_succ_of_lt (hnext p hp)
        obtain ⟨m, ps, hcall, h⟩ := @ih { s with rxBuffer := s.rxBuffer.touch ⟨(), i⟩ }
          (i + 1) argv _ (by simp only; omega) hsize hwithin' hargc hargv hnext'
        exact ⟨m, ps, by rw [prvArgs_char hroom hsep, hcall], h⟩
    · refine ⟨s.rxBuffer, argv, ?_, hwithin, hargc, hargv⟩
      rw [prvArgs, if_neg hroom]
      rfl

/-! ## Characters -/

/-- A dispatch with 1 to 16 arguments, each a pointer to a string that ends in the buffer
(`length_cstr`). -/
structure Dispatch.Sound (d : Dispatch) : Prop where
  argc : 1 ≤ d.argc ∧ d.argc ≤ shellMaxArgs
  length : d.argv.length = d.argc
  ends : ∀ a ∈ d.argv, a.ptr + a.str.length < shellRxBufferSize

/-- What holds between two characters. -/
structure Safe (s : ShellContext) : Prop where
  size : s.rxSize < shellRxBufferSize
  within : s.rxBuffer.Within () shellRxBufferSize
  sound : ∀ d ∈ s.dispatched, d.Sound

theorem Kept.refl (h : s.rxBuffer.Within () shellRxBufferSize) : Kept s s := ⟨h, rfl, rfl, rfl⟩

/-- The arguments, where the pointers are to strings that end. -/
theorem argStrings_sound {name : Nat} {rest : List Nat} (cmd : Option CliShellCmd)
    (hargc : rest.length + 1 ≤ shellMaxArgs) (hends : ∀ p ∈ name :: rest, Ends s.rxBuffer p) :
    (⟨rest.length + 1, argStrings (name :: rest) s, cmd⟩ : Dispatch).Sound := by
  refine ⟨⟨Nat.le_add_left _ _, hargc⟩, by simp [argStrings], fun a ha => ?_⟩
  obtain ⟨p, hp, rfl⟩ := List.mem_map.mp ha
  exact (length_cstr (Nat.add_sub_cancel' (Nat.le_of_lt (hends p hp).lt))).mpr (hends p hp)

/-- The context in which another lookup is recorded. -/
def ShellContext.record (s : ShellContext) (d : Dispatch) : ShellContext :=
  { s with dispatched := s.dispatched ++ [d] }

variable (cmds : List CliShellCmd)

/-- The lookup of `argv[0]`, and the answer behind it. -/
theorem call_dispatch {name : Nat} {rest : List Nat} {found : Option CliShellCmd × ShellContext}
    {d : Dispatch} (hfound : call (prvFindCommand name cmds) s = found)
    (hd : ⟨rest.length + 1, argStrings (name :: rest) s, found.1⟩ = d) :
    (call (prvDispatch cmds (name :: rest)) s).2 =
      (call (prvAnswer d.argv name d.cmd) (found.2.record d)).2 := by
  subst hfound hd
  rfl

theorem dispatch_sound {ps : List Nat} (hargc : ps.length ≤ shellMaxArgs)
    (hends : ∀ p ∈ ps, Ends s.rxBuffer p) (hwithin : s.rxBuffer.Within () shellRxBufferSize)
    (hsound : ∀ d ∈ s.dispatched, d.Sound) :
    (call (prvDispatch cmds ps) s).2.rxBuffer.Within () shellRxBufferSize ∧
      ∀ d ∈ (call (prvDispatch cmds ps) s).2.dispatched, d.Sound := by
  cases ps with
  | nil => exact ⟨hwithin, hsound⟩
  | cons name rest =>
    have hname := hends name List.mem_cons_self
    have hfind := kept_findCommand hname cmds s (.refl hwithin)
    generalize hfound : call (prvFindCommand name cmds) s = found at hfind
    have hd := argStrings_sound found.1 hargc hends
    generalize hrecord : (⟨rest.length + 1, argStrings (name :: rest) s, found.1⟩ : Dispatch) = d at hd
    have hname' : Ends (found.2.record d).rxBuffer name := by
      obtain ⟨k, hk⟩ := hname
      exact ⟨k, hk.1, hk.2.1, (congrFun (congrFun hfind.data ()) k).trans hk.2.2⟩
    have hanswer := kept_answer hname' d.argv d.cmd (found.2.record d) (.refl hfind.within)
    rw [call_dispatch cmds hfound hrecord]
    refine ⟨hanswer.within, ?_⟩
    rw [hanswer.dispatched, ShellContext.record, hfind.dispatched]
    exact List.forall_mem_append.mpr ⟨hsound, List.forall_mem_singleton.mpr hd⟩

/-- The accesses of `memset`. -/
theorem clearRxBuffer_within {m : Mem Unit Byte} (h : m.Within () shellRxBufferSize) :
    (clearRxBuffer m).Within () shellRxBufferSize := by
  have htouch : (m.touchN ⟨(), 0⟩ shellRxBufferSize).Within () shellRxBufferSize :=
    Mem.within_touchN (fun _ => Nat.le_of_eq (Nat.zero_add _)) h
  exact fun i hi => htouch i hi

/-- The end of a line, with `rx_size` characters in the buffer. -/
theorem processLine_safe (hsize : s.rxSize ≤ shellRxBufferSize)
    (hwithin : s.rxBuffer.Within () shellRxBufferSize) (hsound : ∀ d ∈ s.dispatched, d.Sound) :
    Safe (call (prvProcessLine cmds) s).2 := by
  obtain ⟨m, ps, hargs, hm, hargc, hends⟩ := @prvArgs_ends s s.rxSize 0 [] none (Nat.zero_add _) hsize
    hwithin (Nat.zero_le _) (by simp) (by simp)
  have hecho : Kept { s with rxBuffer := m } (call (prvEchoFull s.rxSize) { s with rxBuffer := m }).2 :=
    Meets.ite (fun _ => kept_echo newline) (fun _ => Preserves.pure _) _ (.refl hm)
  have hline : (call (prvProcessLine cmds) s).2 =
      let t := (call (prvDispatch cmds ps) (call (prvEchoFull s.rxSize) { s with rxBuffer := m }).2).2
      { t with rxBuffer := clearRxBuffer t.rxBuffer, rxSize := 0, sent := t.sent ++ shellPrompt } := by
    simp only [prvProcessLine, call_bind, call_get, hargs]
    rfl
  generalize (call (prvEchoFull s.rxSize) { s with rxBuffer := m }).2 = t at hecho hline
  have hends : ∀ p ∈ ps, Ends t.rxBuffer p := by simpa only [Ends, hecho.data] using hends
  have hsound : ∀ d ∈ t.dispatched, d.Sound := by
    rw [hecho.dispatched]
    exact hsound
  obtain ⟨hw, hd⟩ := dispatch_sound cmds hargc hends hecho.within hsound
  rw [hline]
  exact ⟨Nat.succ_pos 255, clearRxBuffer_within hw, hd⟩

/-- A character behind the others, and the end of the line if it ends it. -/
theorem Safe.withChar (h : Safe s) (c : Byte) : Safe (call (prvProcess cmds) (s.withChar c)).2 := by
  have hwithin : ((s.rxBuffer.store ⟨(), s.rxSize⟩ c).touch ⟨(), s.rxSize⟩).Within () shellRxBufferSize :=
    Mem.within_touch.mpr ⟨fun _ => h.size, Mem.within_store.mpr ⟨fun _ => h.size, h.within⟩⟩
  rw [prvProcess_withChar]
  split
  · rename_i hgo
    exact ⟨hgo.2, hwithin, h.sound⟩
  · exact processLine_safe
      (s := { s.withChar c with rxBuffer := (s.withChar c).rxBuffer.touch ⟨(), s.rxSize⟩ }) cmds h.size
      hwithin h.sound

/-- One character. -/
theorem safe_receive (c : Byte) : Preserves Safe (cliShellReceiveChar cmds c) := by
  refine Meets.bind (Q := fun s t => s = t ∧ Safe t) (fun s h => ⟨rfl, h⟩) fun s => ?_
  refine Meets.ite (fun _ t h => h.2) fun _ => Meets.ite (fun _ => ?_) fun _ => ?_
  · refine Meets.ite (fun _ => ?_) fun _ t h => h.2
    rintro t ⟨rfl, h⟩
    have hlt : s.rxSize - 1 < shellRxBufferSize := Nat.lt_of_le_of_lt (Nat.sub_le _ _) h.size
    exact ⟨hlt, Mem.within_store.mpr ⟨fun _ => hlt, h.within⟩, h.sound⟩
  · rintro t ⟨rfl, h⟩
    exact h.withChar cmds c

theorem safe_boot (hlog : s.rxBuffer.log = []) (hd : s.dispatched = []) : Safe (call cliShellBoot s).2 := by
  refine ⟨Nat.succ_pos 255, clearRxBuffer_within fun i hi => by simp [hlog] at hi, fun d hmem => ?_⟩
  have hnone : (call cliShellBoot s).2.dispatched = [] := hd
  rw [hnone] at hmem
  cases hmem

theorem safe_stream (cs : List Byte) : Preserves Safe (shellReceive cmds cs) := by
  induction cs with
  | nil => exact Preserves.pure _
  | cons c cs ih => exact (safe_receive cmds c).seq fun _ => ih

end

/-- For every stream of characters, fed to a shell that was booted: `rx_size` is at most 255 between two
characters, no access is made outside `rx_buffer`, and all dispatches have 1 to 16 arguments, each a
pointer to a string that ends in the buffer. -/
theorem shell_safe {s : ShellContext} (hlog : s.rxBuffer.log = []) (hd : s.dispatched = [])
    (gShellCommands : List CliShellCmd) (cs : List Byte) :
    let t := (call (shellReceive gShellCommands cs) (call cliShellBoot s).2).2
    t.rxSize ≤ 255 ∧ t.rxBuffer.Within () 256 ∧ ∀ d ∈ t.dispatched, d.Sound := by
  have h := safe_stream gShellCommands cs _ (safe_boot hlog hd)
  exact ⟨Nat.le_of_lt_succ h.size, h.within, h.sound⟩

/-- A line with a NUL in it, and 17 words in the next one. -/
theorem shell_safe_words :
    let cs := text "help " ++ [0] ++ newline :: (List.replicate 17 (text "a ")).flatten ++ [newline]
    let t := (call (shellReceive [rebootCmd] cs) (call cliShellBoot wired).2).2
    t.rxSize ≤ 255 ∧ t.rxBuffer.Within () 256 ∧ ∀ d ∈ t.dispatched, d.Sound :=
  shell_safe (s := wired) rfl rfl [rebootCmd] _

end Rs485.Shell
