import Mathlib.Data.BitVec
import Rs485.Framework.Lts
import Rs485.Impl.Modbus.Ascii
import Rs485.Spec.Scanner

/-!
# The receiver of the ASCII mode

`xMBASCIIReceiveFSM` and the timeout take the receiver along the scanner of
`Spec/Scanner`: `Tracks s q` says what the receiver is like where the scanner is at
`q`, and `run_tracks` that a run leaves both at the same place. So what the receiver
finds in a stream is what the stream ends with.
-/

namespace Rs485.Modbus.Ascii

open Rs485.Framework Rs485.Spec.Scanner

/-- The frames of the ASCII mode; the buffer has room for the octets of 512 characters. -/
def format : Format UCHAR where
  start := colon
  cr := defaultCR
  lf := defaultLF
  limit := 512
  start_ne_cr := by decide
  start_ne_lf := by decide

/-- The octets that the characters of a text encode: two characters for each, and none for a last
character alone. -/
def octets : List UCHAR → List UCHAR
  | [] => []
  | [_] => []
  | hi :: lo :: cs => (prvucMBCHAR2BIN hi <<< 4 ||| prvucMBCHAR2BIN lo) :: octets cs

theorem length_octets (cs : List UCHAR) : (octets cs).length = cs.length / 2 := by
  induction cs using octets.induct with
  | case1 => rfl
  | case2 => simp [octets]
  | case3 hi lo cs ih =>
    rw [octets, List.length_cons, ih, List.length_cons, List.length_cons]
    omega

theorem octets_append {cs : List UCHAR} (h : cs.length % 2 = 0) (ds : List UCHAR) :
    octets (cs ++ ds) = octets cs ++ octets ds := by
  induction cs using octets.induct with
  | case1 => rfl
  | case2 => cases h
  | case3 hi lo cs ih =>
    rw [List.length_cons, List.length_cons] at h
    rw [List.cons_append, List.cons_append, octets, octets, ih (by omega), List.cons_append]

theorem octets_append_half {cs : List UCHAR} (h : cs.length % 2 = 0) (c : UCHAR) :
    octets (cs ++ [c]) = octets cs := by
  rw [octets_append h, octets, List.append_nil]

/-! ## One character -/

variable {s t u : AsciiSlave} {q : Scan UCHAR} {c : UCHAR} {cs : List UCHAR}

/-- What holds of the receiver between two inputs, wherever it is. -/
structure Ready (s : AsciiSlave) : Prop where
  sndState : s.sndState = .txIdle
  ucPort : s.modbus.ucPort = bspRS485
  rxQueue : s.board.rxQueue = []
  lf : s.ucMBLFCharacter = defaultLF

/-- The buffer holds what the text `cs` encodes, the first half of an octet included. -/
structure Buffered (s : AsciiSlave) (cs : List UCHAR) : Prop where
  pos : s.modbus.usRcvBufferPos = cs.length / 2
  bytePos : s.eBytePos = if cs.length % 2 = 0 then .highNibble else .lowNibble
  holds : s.store.mem.Holds s.ucASCIIBuf (octets cs)
  half : ∀ cs' c, cs = cs' ++ [c] → cs.length % 2 = 1 →
    s.store.mem.data s.ucASCIIBuf.obj (s.ucASCIIBuf.off + cs.length / 2) = prvucMBCHAR2BIN c <<< 4

/-- The receiver where the scanner is at `q`. -/
def Tracks (s : AsciiSlave) : Scan UCHAR → Prop
  | .idle timing => s.rcvState = .rxIdle ∧ s.board.htim1Busy = timing
  | .text cs => s.rcvState = .rxRcv ∧ s.board.htim1Busy = true ∧ Buffered s cs
  | .closed cs => s.rcvState = .rxWaitEof ∧ s.board.htim1Busy = true ∧ Buffered s cs

theorem Buffered.congr (h : Buffered s cs) (hpos : t.modbus.usRcvBufferPos = s.modbus.usRcvBufferPos)
    (hbyte : t.eBytePos = s.eBytePos) (hbuf : t.ucASCIIBuf = s.ucASCIIBuf)
    (hmem : t.store.mem.data = s.store.mem.data) :
    Buffered t cs where
  pos := hpos.trans h.pos
  bytePos := hbyte.trans h.bytePos
  holds := by
    rw [hbuf]
    exact h.holds.congr fun _ _ _ => by rw [hmem]
  half := by
    rw [hbuf, hmem]
    exact h.half

theorem buffered_nil (hpos : s.modbus.usRcvBufferPos = 0) (hbyte : s.eBytePos = .highNibble) :
    Buffered s [] where
  pos := hpos
  bytePos := hbyte
  holds := Mem.holds_nil
  half := by simp

/-- The first half of an octet. -/
theorem Buffered.high (h : Buffered s cs) (heven : cs.length % 2 = 0) (c : UCHAR) :
    Buffered { s with
      store.mem := s.store.mem.store (s.ucASCIIBuf.add s.modbus.usRcvBufferPos) (prvucMBCHAR2BIN c <<< 4)
      eBytePos := .lowNibble } (cs ++ [c]) := by
  have hlen : (cs ++ [c]).length = cs.length + 1 := by simp
  have hhalf : (cs.length + 1) / 2 = cs.length / 2 := by omega
  refine ⟨?_, ?_, ?_, ?_⟩
  · rw [hlen, hhalf]
    exact h.pos
  · rw [hlen, if_neg (by omega)]
  · rw [octets_append_half heven]
    refine h.holds.congr fun i _ hi => if_neg ?_
    rw [length_octets, ← h.pos] at hi
    rintro ⟨-, rfl⟩
    exact Nat.lt_irrefl _ hi
  · intro cs' c' heq _
    obtain ⟨-, hc⟩ := List.append_inj' heq rfl
    cases hc
    rw [hlen, hhalf, ← h.pos]
    exact if_pos ⟨rfl, rfl⟩

/-- The second half. -/
theorem Buffered.low (h : Buffered s cs) (hodd : cs.length % 2 = 1) (c : UCHAR) :
    Buffered (rxLowNibble (prvucMBCHAR2BIN c) s) (cs ++ [c]) := by
  have hlen : (cs ++ [c]).length = cs.length + 1 := by simp
  obtain rfl | ⟨cs', hi, rfl⟩ := List.eq_nil_or_concat cs
  · cases hodd
  rw [List.concat_eq_append] at *
  have hlen' : (cs' ++ [hi]).length = cs'.length + 1 := by simp
  have hhalf : (cs' ++ [hi]).length / 2 = cs'.length / 2 := by omega
  have hoct : octets (cs' ++ [hi]) = octets cs' := octets_append_half (by omega) hi
  refine ⟨?_, ?_, ?_, fun _ _ _ hodd' => by omega⟩
  · have := h.pos
    rw [hlen]
    simp only [rxLowNibble]
    omega
  · rw [hlen, if_pos (by omega)]
    rfl
  · rw [List.append_assoc, octets_append (by omega), List.singleton_append, octets, octets,
      Mem.holds_append, Mem.holds_cons]
    have hprev : s.store.mem.Holds s.ucASCIIBuf (octets cs') := hoct ▸ h.holds
    refine ⟨hprev.congr fun i _ hlt => if_neg ?_, ?_, Mem.holds_nil⟩
    · rw [length_octets, ← hhalf, ← h.pos] at hlt
      rintro ⟨-, rfl⟩
      exact Nat.lt_irrefl _ hlt
    · have hdata := h.half cs' hi rfl hodd
      rw [← h.pos] at hdata
      rw [length_octets, ← hhalf, ← h.pos]
      simp only [rxLowNibble, Ptr.add_obj, Ptr.add_off, Mem.store_data, and_self, if_true]
      rw [hdata]

theorem Ready.congr (h : Ready s) (hsnd : t.sndState = s.sndState) (hport : t.modbus.ucPort = s.modbus.ucPort)
    (hqueue : t.board.rxQueue = s.board.rxQueue) (hlf : t.ucMBLFCharacter = s.ucMBLFCharacter) : Ready t :=
  ⟨hsnd.trans h.sndState, hport.trans h.ucPort, hqueue.trans h.rxQueue, hlf.trans h.lf⟩

/-- The character that arrives is the one that is read. -/
theorem arrive_eq (h : Ready s) (c : UCHAR) : arrive c s = .ok (rxCase c s) := by
  have hq : bspUartRxCb s.board c = { s.board with rxQueue := [c] } := by
    rw [bspUartRxCb, h.rxQueue]
    rfl
  have hs : { s with board := { s.board with rxQueue := [] } } = s := by
    rw [← h.rxQueue]
  rw [arrive, hq, xMBASCIIReceiveFSM, if_pos h.sndState]
  exact congrArg (fun s => Except.ok (rxCase c s)) hs

theorem timersEnable_eq (h : Ready s) : timersEnable s = { s with board.htim1Busy := true } := by
  rw [timersEnable, vMBPortTimersEnable, if_pos h.ucPort]

theorem timersDisable_eq (h : s.modbus.ucPort = bspRS485) :
    timersDisable s = { s with board.htim1Busy := false } := by
  rw [timersDisable, vMBPortTimersDisable, if_pos h]

@[simp] theorem format_start : format.start = colon := rfl
@[simp] theorem format_cr : format.cr = defaultCR := rfl
@[simp] theorem format_lf : format.lf = defaultLF := rfl
theorem format_limit : format.limit = 512 := rfl

@[simp] theorem timersEnable_modbus (s : AsciiSlave) : (timersEnable s).modbus = s.modbus := by
  rw [timersEnable, vMBPortTimersEnable]
  split <;> rfl

@[simp] theorem timersDisable_modbus (s : AsciiSlave) : (timersDisable s).modbus = s.modbus := by
  rw [timersDisable, vMBPortTimersDisable]
  split <;> rfl

/-- A character, while a frame is open. -/
theorem rxCase_text (h : Ready s) (hs : Tracks s (.text cs)) (hlen : cs.length ≤ 512) (c : UCHAR) :
    Ready (rxCase c s) ∧ Tracks (rxCase c s) ((Scan.text cs).char format c) := by
  obtain ⟨hrcv, hbusy, hbuf⟩ := hs
  have hon : timersEnable s = s := by
    rw [timersEnable_eq h, ← hbusy]
  simp only [rxCase, hrcv, hon, Scan.char, format_start, format_cr]
  by_cases hstart : c = colon
  · simp only [hstart, if_true]
    exact ⟨h.congr rfl rfl rfl rfl, hrcv, hbusy, buffered_nil rfl rfl⟩
  by_cases hcr : c = defaultCR
  · simp only [hcr, if_true]
    exact ⟨h.congr rfl rfl rfl rfl, rfl, hbusy, hbuf.congr rfl rfl rfl rfl⟩
  simp only [hstart, hcr, if_false]
  have hpos := hbuf.pos
  have hbyte := hbuf.bytePos
  have hlimit := format_limit
  rcases Nat.mod_two_eq_zero_or_one cs.length with heven | hodd
  · rw [if_pos heven] at hbyte
    simp only [hbyte, rxHighNibble]
    by_cases hlt : cs.length < format.limit
    · rw [if_pos (show s.modbus.usRcvBufferPos < 256 by omega), if_pos hlt]
      exact ⟨h.congr rfl rfl rfl rfl, hrcv, hbusy, hbuf.high heven c⟩
    · rw [if_neg (show ¬ s.modbus.usRcvBufferPos < 256 by omega), if_neg hlt, timersDisable_eq]
      · exact ⟨h.congr rfl rfl rfl rfl, rfl, rfl⟩
      · exact h.ucPort
  · rw [if_neg (by omega)] at hbyte
    simp only [hbyte]
    rw [if_pos (show cs.length < format.limit by omega)]
    exact ⟨h.congr rfl rfl rfl rfl, hrcv, hbusy, hbuf.low hodd c⟩

/-- The receiver takes a character as the scanner does. -/
theorem rxCase_tracks (h : Ready s) (hs : Tracks s q) (hlen : ∀ cs, q = .text cs → cs.length ≤ 512)
    (c : UCHAR) :
    Ready (rxCase c s) ∧ Tracks (rxCase c s) (q.char format c) := by
  cases q with
  | text cs => exact rxCase_text h hs (hlen cs rfl) c
  | idle timing =>
    obtain ⟨hrcv, hbusy⟩ := hs
    simp only [rxCase, hrcv, Scan.char, format_start]
    by_cases hstart : c = colon
    · simp only [hstart, if_true, timersEnable_eq h]
      exact ⟨h.congr rfl rfl rfl rfl, rfl, rfl, buffered_nil rfl rfl⟩
    · simp only [hstart, if_false]
      exact ⟨h, hrcv, hbusy⟩
  | closed cs =>
    obtain ⟨hrcv, hbusy, -⟩ := hs
    have hlf := h.lf
    simp only [rxCase, hrcv, Scan.char, format_start, format_lf]
    by_cases hend : c = defaultLF
    · simp only [hend, hlf, if_true, timersDisable_eq h.ucPort]
      exact ⟨h.congr rfl rfl rfl hlf.symm, rfl, rfl⟩
    simp only [hend, hlf, if_false]
    by_cases hstart : c = colon
    · have hon : timersEnable { rxStart s with rcvState := .rxRcv } =
          { rxStart s with rcvState := .rxRcv, board.htim1Busy := true } :=
        timersEnable_eq (h.congr rfl rfl rfl rfl)
      simp only [hstart, if_true, hon]
      exact ⟨h.congr rfl rfl rfl rfl, rfl, rfl, buffered_nil rfl rfl⟩
    · simp only [hstart, if_false]
      exact ⟨h.congr rfl rfl rfl hlf.symm, rfl, hbusy⟩

/-- The event is posted just for a character that completes a frame, and what the buffer holds is
the frame. -/
theorem rxCase_posted (h : Ready s) (hs : Tracks s q) (c : UCHAR) :
    (∀ cs, q.found format c = some cs →
      (rxCase c s).modbus.posted = .evFrameReceived :: s.modbus.posted ∧ Buffered (rxCase c s) cs) ∧
    (q.found format c = none → (rxCase c s).modbus.posted = s.modbus.posted) := by
  cases q with
  | idle timing =>
    refine ⟨nofun, fun _ => ?_⟩
    simp only [rxCase, hs.1]
    split <;> simp [rxStart]
  | text cs =>
    refine ⟨nofun, fun _ => ?_⟩
    simp only [rxCase, hs.1]
    repeat' split
    all_goals simp [rxStart, rxHighNibble, rxLowNibble, apply_ite]
  | closed cs =>
    have hlf := h.lf
    simp only [rxCase, hs.1, Scan.found, format_lf]
    by_cases hend : c = defaultLF
    · simp only [hend, hlf, if_true, timersDisable_eq h.ucPort, reduceCtorEq, false_implies, and_true,
        Option.some.injEq, forall_eq', xMBPortEventPost_posted, true_and]
      exact hs.2.2.congr rfl rfl rfl rfl
    · simp only [hend, hlf, if_false, reduceCtorEq, false_implies, implies_true, true_and, forall_const]
      split <;> simp [rxStart]

/-! ## The memory -/

/-- The cell `a` is one of the 256 of the buffer. -/
def InBuf (p : Ptr Obj) (a : Obj × Nat) : Prop := a.1 = p.obj ∧ p.off ≤ a.2 ∧ a.2 < p.off + 256

/-- What was read and written from `s` on are cells of the buffer, and nothing else of the store has
changed. -/
structure Confined (s t : AsciiSlave) : Prop where
  buf : t.ucASCIIBuf = s.ucASCIIBuf
  log : ∀ a ∈ t.store.mem.log, a ∈ s.store.mem.log ∨ InBuf s.ucASCIIBuf a
  data : ∀ o i, ¬ InBuf s.ucASCIIBuf (o, i) → t.store.mem.data o i = s.store.mem.data o i
  rest : t.store.reg = s.store.reg ∧ t.store.slaveID = s.store.slaveID

theorem Confined.of_eq (hbuf : t.ucASCIIBuf = s.ucASCIIBuf) (hstore : t.store = s.store) : Confined s t where
  buf := hbuf
  log := fun _ h => Or.inl (hstore ▸ h)
  data := fun _ _ _ => by rw [hstore]
  rest := by simp [hstore]

theorem Confined.trans (h : Confined s t) (h' : Confined t u) : Confined s u where
  buf := h'.buf.trans h.buf
  log := fun a ha => (h'.log a ha).elim (h.log a) fun hb => Or.inr (h.buf ▸ hb)
  data := fun o i hn => (h'.data o i (h.buf ▸ hn)).trans (h.data o i hn)
  rest := ⟨h'.rest.1.trans h.rest.1, h'.rest.2.trans h.rest.2⟩

/-- A store to a cell of the buffer. -/
theorem Confined.of_store {n : Nat} (hn : n < 256) {v : UCHAR} (hbuf : t.ucASCIIBuf = s.ucASCIIBuf)
    (hdata : t.store.mem.data = (s.store.mem.store (s.ucASCIIBuf.add n) v).data)
    (hlog : ∀ a ∈ t.store.mem.log, a = (s.ucASCIIBuf.obj, s.ucASCIIBuf.off + n) ∨ a ∈ s.store.mem.log)
    (hrest : t.store.reg = s.store.reg ∧ t.store.slaveID = s.store.slaveID) : Confined s t := by
  have hin : InBuf s.ucASCIIBuf (s.ucASCIIBuf.obj, s.ucASCIIBuf.off + n) :=
    ⟨rfl, Nat.le_add_right _ _, Nat.add_lt_add_left hn _⟩
  refine ⟨hbuf, fun a ha => ?_, fun o i hout => ?_, hrest⟩
  · rcases hlog a ha with rfl | h
    · exact Or.inr hin
    · exact Or.inl h
  · rw [hdata]
    refine if_neg ?_
    rintro ⟨rfl, rfl⟩
    exact hout hin

theorem timersEnable_confined (s : AsciiSlave) : Confined s (timersEnable s) := by
  refine .of_eq rfl ?_
  rw [timersEnable, vMBPortTimersEnable]
  split <;> rfl

theorem timersDisable_confined (s : AsciiSlave) : Confined s (timersDisable s) := by
  refine .of_eq rfl ?_
  rw [timersDisable, vMBPortTimersDisable]
  split <;> rfl

theorem rxCase_confined (hs : Tracks s q) (hlen : ∀ cs, q = .text cs → cs.length ≤ 512) (c : UCHAR) :
    Confined s (rxCase c s) := by
  cases q with
  | idle timing =>
    simp only [rxCase, hs.1]
    split
    · exact (timersEnable_confined s).trans (.of_eq rfl rfl)
    · exact .of_eq rfl rfl
  | closed cs =>
    simp only [rxCase, hs.1]
    split
    · exact (timersDisable_confined s).trans (.of_eq rfl rfl)
    · split
      · exact .trans (t := { rxStart s with rcvState := .rxRcv }) (.of_eq rfl rfl) (timersEnable_confined _)
      · exact .of_eq rfl rfl
  | text cs =>
    have hbuf := hs.2.2
    have hpos := hbuf.pos
    have hbyte := hbuf.bytePos
    have hlen := hlen cs rfl
    have hon := timersEnable_confined s
    simp only [rxCase, hs.1]
    split
    · exact hon.trans (.of_eq rfl rfl)
    split
    · exact hon.trans (.of_eq rfl rfl)
    refine hon.trans ?_
    rw [show (timersEnable s).eBytePos = s.eBytePos from rfl]
    split
    · rw [rxHighNibble]
      split
      · rename_i hlt
        exact .of_store hlt rfl rfl (fun a ha => List.mem_cons.mp ha) ⟨rfl, rfl⟩
      · exact .trans (t := { timersEnable s with rcvState := .rxIdle }) (.of_eq rfl rfl)
          (timersDisable_confined _)
    · rename_i hlow
      have hodd : cs.length % 2 ≠ 0 := by
        intro h
        rw [hlow, if_pos h] at hbyte
        cases hbyte
      have hlt : (timersEnable s).modbus.usRcvBufferPos < 256 := by
        rw [timersEnable_modbus]
        omega
      refine .of_store hlt rfl rfl (fun a ha => ?_) ⟨rfl, rfl⟩
      rcases List.mem_cons.mp ha with h | h
      · exact Or.inl h
      · exact List.mem_cons.mp h

/-! ## Runs -/

/-- What the scanner sees of an input. -/
def Input.seen : Input → Option UCHAR
  | .char c => some c
  | .t1s => none

variable {σ τ υ : AsciiSlave × Option Assertion} {ins : List Input} {i : Input}

theorem next_none (hn : receiver.next σ i = some τ) : σ.2 = none := by
  simp only [receiver] at hn
  split at hn
  · assumption
  · cases hn

theorem next_char (h : Ready σ.1) (hn : receiver.next σ (.char c) = some τ) : σ.2 = none ∧
    τ = (rxCase c σ.1, none) := by
  simp only [receiver, arrive_eq h] at hn
  split at hn
  · exact ⟨‹_›, (Option.some.inj hn).symm⟩
  · cases hn

theorem next_t1s (hn : receiver.next σ .t1s = some τ) : σ.2 = none ∧ σ.1.board.htim1Busy = true ∧
    (σ.1.rcvState = .rxIdle ∧ τ = (σ.1, some .t1sState) ∨
      σ.1.rcvState ≠ .rxIdle ∧ τ = (timersDisable { σ.1 with rcvState := .rxIdle }, none)) := by
  simp only [receiver, xMBASCIITimerT1SExpired] at hn
  split at hn
  · rename_i herr
    split at hn
    · rename_i hbusy
      refine ⟨herr, hbusy, ?_⟩
      cases hrcv : σ.1.rcvState <;> simp only [hrcv] at hn <;> cases hn
      · exact Or.inl ⟨rfl, rfl⟩
      · exact Or.inr ⟨nofun, rfl⟩
      · exact Or.inr ⟨nofun, rfl⟩
    · cases hn
  · cases hn

/-- The timeout, as the scanner takes it. -/
theorem timeout_tracks (h : Ready s) (hs : Tracks s q) (hrcv : s.rcvState ≠ .rxIdle) :
    q.timeout = some (.idle false) ∧ Ready (timersDisable { s with rcvState := .rxIdle }) ∧
      Tracks (timersDisable { s with rcvState := .rxIdle }) (.idle false) := by
  rw [timersDisable_eq]
  · refine ⟨?_, h.congr rfl rfl rfl rfl, rfl, rfl⟩
    cases q with
    | idle => exact absurd hs.1 hrcv
    | text => rfl
    | closed => rfl
  · exact h.ucPort

/-- The receiver that was started. -/
theorem started (hi : receiver.init σ) :
    Ready σ.1 ∧ Tracks σ.1 (.idle false) ∧ σ.1.ucASCIIBuf = σ.1.modbus.ucRTUBuf := by
  obtain ⟨-, r, hprov, hbusy, hqueue, hstart⟩ := hi
  rw [← Except.ok.inj hstart]
  exact ⟨⟨hprov.sndState, rfl, hqueue, rfl⟩, ⟨rfl, hbusy⟩, hprov.ucASCIIBuf⟩

/-- A run leaves the receiver where the scanner is. -/
theorem run_tracks (hi : receiver.init σ) (hr : receiver.Run Lts.any σ ins τ) (herr : τ.2 = none) :
    ∃ q, scan format (ins.map Input.seen) (.idle false) = some q ∧ Ready τ.1 ∧ Tracks τ.1 q ∧
      Confined σ.1 τ.1 := by
  induction hr with
  | nil =>
    obtain ⟨hready, htracks, -⟩ := started hi
    exact ⟨.idle false, rfl, hready, htracks, .of_eq rfl rfl⟩
  | @snoc ins τ υ i hr _ hn ih =>
    rw [List.map_append, scan_append]
    cases i with
    | char c =>
      obtain ⟨q, hq, hready, htracks, hconf⟩ := ih (next_none hn)
      obtain ⟨-, rfl⟩ := next_char hready hn
      have hlen : ∀ cs, q = .text cs → cs.length ≤ 512 := fun cs h => ((text_iff hq).mp h).2.2.2
      obtain ⟨hready', htracks'⟩ := rxCase_tracks hready htracks hlen c
      rw [hq]
      exact ⟨q.char format c, rfl, hready', htracks', hconf.trans (rxCase_confined htracks hlen c)⟩
    | t1s =>
      obtain ⟨hnone, -, ⟨-, rfl⟩ | ⟨hrcv, rfl⟩⟩ := next_t1s hn
      · cases herr
      obtain ⟨q, hq, hready, htracks, hconf⟩ := ih hnone
      obtain ⟨htimeout, hready', htracks'⟩ := timeout_tracks hready htracks hrcv
      rw [hq]
      have hconf' : Confined τ.1 { τ.1 with rcvState := .rxIdle } := .of_eq rfl rfl
      refine ⟨.idle false, ?_, hready', htracks', hconf.trans (hconf'.trans (timersDisable_confined _))⟩
      change q.timeout.bind (scan format []) = _
      rw [htimeout]
      rfl

/-! ## What is received -/

theorem call_lrcLoop (p : Ptr Obj) (n : Nat) (l : UCHAR) (st : Store) :
    call (lrcLoop n p l) st = (l + (st.mem.slice p n).sum, { st with mem := st.mem.touchN p n }) := by
  induction n generalizing p l st with
  | zero => simp [lrcLoop, Mem.slice, Mem.touchN]
  | succ n ih =>
    rw [lrcLoop, call_bind, call_rd, ih, Mem.slice_cons, List.sum_cons, BitVec.add_assoc]
    rfl

theorem call_prvucMBLRC (p : Ptr Obj) (n : Nat) (st : Store) :
    call (prvucMBLRC p n) st = (-(st.mem.slice p n).sum, { st with mem := st.mem.touchN p n }) := by
  rw [prvucMBLRC, call_bind, call_lrcLoop]
  exact congrArg (fun l => (-l, { st with mem := st.mem.touchN p n })) (BitVec.zero_add _)

/-- What `eMBASCIIReceive` finds: the octets of the text must be three at least, and their sum zero. -/
theorem call_receiveFrame (hs : Buffered s cs) : ∃ log,
    call (receiveFrame s) s.store = (if 6 ≤ cs.length ∧ (octets cs).sum = 0 then
        some ((octets cs).headD 0, s.ucASCIIBuf.add 1, cs.length / 2 - 2) else none,
      { s.store with mem.log := log }) := by
  have hpos := hs.pos
  have hslice : s.store.mem.slice s.ucASCIIBuf s.modbus.usRcvBufferPos = octets cs := by
    rw [hpos, ← length_octets]
    exact hs.holds
  have hmem {m : Mem Obj UCHAR} (h : m.data = s.store.mem.data) : m = ⟨s.store.mem.data, m.log⟩ := by
    rw [← h]
  have hneg : -(octets cs).sum = 0 ↔ (octets cs).sum = 0 := BitVec.neg_eq_zero_iff
  rw [receiveFrame]
  by_cases hlen : 6 ≤ cs.length
  · have hge : s.modbus.usRcvBufferPos ≥ 3 := by omega
    have hhead : (octets cs).headD 0 = s.store.mem.data s.ucASCIIBuf.obj s.ucASCIIBuf.off := by
      rw [← hslice, ← Nat.sub_add_cancel (show 1 ≤ s.modbus.usRcvBufferPos by omega), Mem.slice_cons]
      rfl
    rw [if_pos hge, call_bind, call_prvucMBLRC, hslice]
    simp only [hlen, true_and, call_ite, call_bind, call_pure, call_rd, Mem.touchN_data, ← hhead, hneg]
    by_cases hsum : (octets cs).sum = 0
    · rw [if_pos hsum, if_pos hsum, hpos, Nat.sub_sub]
      exact ⟨_, congrArg (fun m => (_, { s.store with mem := m })) (hmem (by simp))⟩
    · rw [if_neg hsum, if_neg hsum]
      exact ⟨_, congrArg (fun m => (_, { s.store with mem := m })) (hmem (by simp))⟩
  · rw [if_neg (by omega), if_neg (fun h => hlen h.1)]
    exact ⟨s.store.mem.log, rfl⟩

/-- `eMBASCIIReceive` finds the address and the PDU of a text of three octets at least and 255 at
most, whose sum is zero. -/
theorem receives_iff {a : UCHAR} {pdu : List UCHAR} (hs : Buffered s cs) :
    (∃ v, eMBASCIIReceive s = .ok (some (a, s.ucASCIIBuf.add 1, pdu.length), v) ∧
      v.store.mem.Holds (s.ucASCIIBuf.add 1) pdu) ↔
      cs.length < 512 ∧ pdu ≠ [] ∧ ∃ lrc, octets cs = a :: pdu ++ [lrc] ∧ (octets cs).sum = 0 := by
  obtain ⟨log, hcall⟩ := call_receiveFrame hs
  have hpos := hs.pos
  have hoct := length_octets cs
  constructor
  · rintro ⟨v, hrcv, hholds⟩
    rw [eMBASCIIReceive] at hrcv
    split at hrcv
    · rename_i hlt
      obtain ⟨hres, rfl⟩ := Prod.mk.inj (Except.ok.inj hrcv)
      rw [hcall] at hres
      simp only [hcall] at hholds
      split at hres
      · rename_i hgood
        simp only [Option.some.injEq, Prod.mk.injEq, true_and] at hres
        obtain ⟨rfl, hlen⟩ := hres
        have hslice : octets cs = s.store.mem.slice s.ucASCIIBuf (pdu.length + 1 + 1) := by
          have h := hs.holds
          rw [Mem.Holds, hoct, show cs.length / 2 = pdu.length + 1 + 1 by omega] at h
          exact h.symm
        rw [Mem.slice_cons, Mem.slice_succ,
          show s.store.mem.slice (s.ucASCIIBuf.add 1) pdu.length = pdu from hholds] at hslice
        refine ⟨by omega, List.ne_nil_of_length_pos (by omega),
          s.store.mem.data s.ucASCIIBuf.obj (s.ucASCIIBuf.off + 1 + pdu.length), ?_, hgood.2⟩
        rw [hslice]
        rfl
      · cases hres
    · cases hrcv
  · rintro ⟨hlen, hpdu, lrc, heq, hsum⟩
    have hlen2 : cs.length / 2 = pdu.length + 2 := by
      rw [← hoct, heq]
      simp
    have hne := List.length_pos_of_ne_nil hpdu
    have hres : eMBASCIIReceive s = .ok (some (a, s.ucASCIIBuf.add 1, pdu.length),
        { s with store := { s.store with mem.log := log } }) := by
      rw [eMBASCIIReceive, if_pos (by omega)]
      simp only [hcall]
      rw [if_pos ⟨by omega, hsum⟩, heq, hlen2]
      rfl
    refine ⟨_, hres, ?_⟩
    have hholds := hs.holds
    rw [heq, List.cons_append, Mem.holds_cons, Mem.holds_append] at hholds
    exact hholds.2.1

/-- The last input has passed a frame on, and `eMBASCIIReceive` finds the address `a` and the PDU
`pdu` in it. -/
def Delivers (s t : AsciiSlave) (a : UCHAR) (pdu : List UCHAR) : Prop :=
  t.modbus.posted = .evFrameReceived :: s.modbus.posted ∧
    ∃ v, eMBASCIIReceive t = .ok (some (a, t.ucASCIIBuf.add 1, pdu.length), v) ∧
      v.store.mem.Holds (t.ucASCIIBuf.add 1) pdu

/-- The stream ends with a frame of the text `cs`. -/
def Framed (ins : List Input) (cs : List UCHAR) : Prop :=
  (∃ pre, ins = pre ++ (colon :: cs ++ [defaultCR, defaultLF]).map .char) ∧ colon ∉ cs ∧ defaultCR ∉ cs

theorem seen_injective : Function.Injective Input.seen := by
  intro i j h
  cases i <;> cases j <;> simp_all [Input.seen]

theorem map_seen_char (cs : List UCHAR) : (cs.map Input.char).map Input.seen = cs.map some := by
  simp [Input.seen, Function.comp_def]

/-- The scanner finds the frames that the stream ends with. -/
theorem found_format_iff (hq : scan format (ins.map Input.seen) (.idle false) = some q) :
    q.found format c = some cs ↔ Framed (ins ++ [.char c]) cs ∧ cs.length ≤ 512 := by
  rw [found_iff hq]
  constructor
  · rintro ⟨ins', heq, ⟨pre, rfl⟩, hs, hc, hlen⟩
    have hmap : (ins ++ [Input.char c]).map Input.seen =
        pre ++ ((colon :: cs ++ [defaultCR, defaultLF]).map Input.char).map Input.seen := by
      rw [List.map_append, map_seen_char]
      refine heq.trans ?_
      simp
    obtain ⟨p, t, hins, -, ht⟩ := List.map_eq_append_iff.mp hmap
    rw [List.map_injective_iff.mpr seen_injective ht] at hins
    exact ⟨⟨⟨p, hins⟩, hs, hc⟩, hlen⟩
  · rintro ⟨⟨⟨pre, heq⟩, hs, hc⟩, hlen⟩
    refine ⟨pre.map Input.seen ++ some colon :: cs.map some, ?_, ⟨pre.map Input.seen, rfl⟩, hs, hc, hlen⟩
    have hmap := congrArg (List.map Input.seen) heq
    rw [List.map_append, List.map_append, map_seen_char] at hmap
    refine hmap.trans ?_
    simp

/-- The frame that the last input of a run completes, if it completes one. -/
theorem last_frame (hi : receiver.init σ) (hr : receiver.Run Lts.any σ ins τ)
    (hn : receiver.next τ i = some υ) :
    ∃ f : Option (List UCHAR), (∀ cs, f = some cs ↔ Framed (ins ++ [i]) cs ∧ cs.length ≤ 512) ∧
      (∀ cs, f = some cs → υ.1.modbus.posted = .evFrameReceived :: τ.1.modbus.posted ∧ Buffered υ.1 cs) ∧
      (f = none → υ.1.modbus.posted = τ.1.modbus.posted) := by
  obtain ⟨q, hq, hready, htracks, -⟩ := run_tracks hi hr (next_none hn)
  cases i with
  | char c =>
    obtain ⟨-, rfl⟩ := next_char hready hn
    obtain ⟨hsome, hnone⟩ := rxCase_posted hready htracks c
    exact ⟨q.found format c, fun cs => found_format_iff hq, hsome, hnone⟩
  | t1s =>
    refine ⟨none, fun cs => iff_of_false nofun ?_, nofun, fun _ => ?_⟩
    · rintro ⟨⟨⟨pre, heq⟩, -⟩, -⟩
      rw [show pre ++ (colon :: cs ++ [defaultCR, defaultLF]).map Input.char =
        pre ++ (colon :: cs ++ [defaultCR]).map .char ++ [.char defaultLF] by simp] at heq
      cases (List.append_inj' heq rfl).2
    · obtain ⟨-, -, ⟨-, rfl⟩ | ⟨-, rfl⟩⟩ := next_t1s hn
      · rfl
      · exact congrArg EModbus.posted (timersDisable_modbus _)

/-- The slave at reset, with what the source leaves out. -/
def providedSlave : AsciiSlave :=
  { Slave.reset 0 with
    ucASCIIBuf := ⟨.ucRTUBuf 0, 0⟩, eBytePos := .highNibble, ucMBLFCharacter := 0
    rcvState := .rxIdle, sndState := .txIdle }

/-- The slave once it was started. -/
def startedSlave : AsciiSlave :=
  let s := eMBASCIIInit providedSlave bspRS485
  { s with modbus := xMBPortEventPost s.modbus .evReady }

theorem init_started : receiver.init (startedSlave, none) :=
  ⟨rfl, providedSlave, ⟨rfl, rfl⟩, rfl, rfl, rfl⟩

theorem mem_log_touchN {m : Mem Obj UCHAR} {p : Ptr Obj} {n : Nat} {a : Obj × Nat}
    (ha : a ∈ (m.touchN p n).log) :
    a ∈ m.log ∨ (a.1 = p.obj ∧ p.off ≤ a.2 ∧ a.2 < p.off + n) := by
  induction n generalizing m p with
  | zero => exact Or.inl ha
  | succ n ih =>
    rcases ih ha with h | ⟨hobj, hle, hlt⟩
    · rcases List.mem_cons.mp h with rfl | h
      · exact Or.inr ⟨rfl, Nat.le_refl _, Nat.lt_add_of_pos_right (Nat.succ_pos n)⟩
      · exact Or.inl h
    · rw [Ptr.add_off] at hle hlt
      exact Or.inr ⟨hobj, by omega, by omega⟩

/-- Reads of cells of the buffer. -/
theorem Confined.of_touchN {p : Ptr Obj} {n : Nat} (hp : p.obj = s.ucASCIIBuf.obj)
    (hle : s.ucASCIIBuf.off ≤ p.off) (hlt : p.off + n ≤ s.ucASCIIBuf.off + 256)
    (hbuf : t.ucASCIIBuf = s.ucASCIIBuf) (hstore : t.store = { s.store with mem := s.store.mem.touchN p n }) :
    Confined s t := by
  refine ⟨hbuf, fun a ha => ?_, fun o i _ => ?_, by rw [hstore]; exact ⟨rfl, rfl⟩⟩
  · rw [hstore] at ha
    rcases mem_log_touchN ha with ha | ⟨hobj, hge, hlt'⟩
    · exact Or.inl ha
    · exact Or.inr ⟨hobj.trans hp, Nat.le_trans hle hge, Nat.lt_of_lt_of_le hlt' hlt⟩
  · rw [hstore]
    exact congrFun (congrFun (Mem.touchN_data _ _ _) _) _

theorem receive_confined {r : Option (UCHAR × Ptr Obj × Nat)} (h : eMBASCIIReceive s = .ok (r, t)) :
    Confined s t := by
  rw [eMBASCIIReceive] at h
  split at h
  · rename_i hlt
    obtain ⟨-, rfl⟩ := Prod.mk.inj (Except.ok.inj h)
    have hbuf {a} (ha : a.1 = s.ucASCIIBuf.obj ∧ s.ucASCIIBuf.off ≤ a.2 ∧
        a.2 < s.ucASCIIBuf.off + s.modbus.usRcvBufferPos) : InBuf s.ucASCIIBuf a :=
      ⟨ha.1, ha.2.1, by omega⟩
    simp only [receiveFrame, call_ite, call_bind, call_prvucMBLRC, call_rd, call_pure]
    split
    · split
      · refine ⟨rfl, fun a ha => ?_, fun _ _ _ => ?_, rfl, rfl⟩
        · rcases List.mem_cons.mp ha with rfl | ha
          · exact Or.inr ⟨rfl, Nat.le_refl _, Nat.lt_add_of_pos_right (by decide)⟩
          · exact (mem_log_touchN ha).imp_right hbuf
        · exact congrFun (congrFun (Mem.touchN_data _ _ _) _) _
      · exact ⟨rfl, fun a ha => (mem_log_touchN ha).imp_right hbuf,
          fun _ _ _ => congrFun (congrFun (Mem.touchN_data _ _ _) _) _, rfl, rfl⟩
    · exact .of_eq rfl rfl
  · cases h

/-- No run reads or writes outside the 256 octets of the buffer, which is that of the RTU mode, or
changes anything else in the store. -/
theorem run_confined (hi : receiver.init σ) (hr : receiver.Run Lts.any σ ins τ) :
    σ.1.ucASCIIBuf = σ.1.modbus.ucRTUBuf ∧ Confined σ.1 τ.1 ∧
      ∀ r v, eMBASCIIReceive τ.1 = .ok (r, v) → Confined τ.1 v := by
  refine ⟨(started hi).2.2, ?_, fun r v h => receive_confined h⟩
  cases herr : τ.2 with
  | none =>
    obtain ⟨-, -, -, -, hconf⟩ := run_tracks hi hr herr
    exact hconf
  | some e =>
    cases hr with
    | nil => exact .of_eq rfl rfl
    | @snoc ins τ' _ i hr _ hn =>
      have hnone := next_none hn
      obtain ⟨q, -, hready, -, hconf⟩ := run_tracks hi hr hnone
      cases i with
      | char c =>
        obtain ⟨-, rfl⟩ := next_char hready hn
        cases herr
      | t1s =>
        obtain ⟨-, -, ⟨-, rfl⟩ | ⟨-, rfl⟩⟩ := next_t1s hn
        · exact hconf
        · cases herr

/-- A frame of one octet. -/
theorem run_confined_octet : ∃ τ,
    receiver.Run Lts.any (startedSlave, none) ([0x3A, 0x30, 0x31, 0x0D].map .char) τ ∧
      Confined startedSlave τ.1 := by
  have hr := Lts.Run.any_of_exec receiver (startedSlave, none)
    ([0x3A, 0x30, 0x31, 0x0D].map .char) (by decide)
  exact ⟨_, hr, (run_confined init_started hr).2.1⟩

end Rs485.Modbus.Ascii
