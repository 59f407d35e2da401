import Rs485.Proof.Modbus.Ascii

/-!
# What the ASCII mode sends, it receives

`eMBASCIISend`, and the transmitter-empty interrupts that follow, put `wire` on the
line (`send_wire`), the text of the address, the PDU and their LRC between the start
and the end characters; and a receiver finds the address and the PDU in it, whatever
it has seen before.
-/

namespace Rs485.Modbus.Ascii

open Rs485.Framework Rs485.Spec.Scanner

/-- The character of a nibble. -/
def nibbleChar (n : UCHAR) : UCHAR := if n ≤ 0x09 then 0x30 + n else n - 0x0A + 0x41

/-- The characters of octets, two for each. -/
def text : List UCHAR → List UCHAR
  | [] => []
  | b :: os => nibbleChar (b >>> 4) :: nibbleChar (b &&& 0x0F) :: text os

/-- The octets of a frame: the address, the PDU and the LRC. -/
def frameOctets (a : UCHAR) (pdu : List UCHAR) : List UCHAR := a :: pdu ++ [-(a :: pdu).sum]

/-- A frame on the line. -/
def wire (os : List UCHAR) : List UCHAR := colon :: text os ++ [defaultCR, defaultLF]

theorem prvucMBBIN2CHAR_eq (n : UCHAR) (h : n ≤ 0x0F) : prvucMBBIN2CHAR n = .ok (nibbleChar n) := by
  rw [prvucMBBIN2CHAR, nibbleChar]
  split
  · rfl
  · rename_i hgt
    have hge : 0x0A ≤ n := by bv_omega
    rw [if_pos ⟨hge, h⟩]

theorem nibble_le : ∀ b : UCHAR, b >>> 4 ≤ 0x0F ∧ b &&& 0x0F ≤ 0x0F := by
  decide +kernel

/-- The characters of an octet encode it, and are none of those that delimit a frame. -/
theorem nibbleChar_spec : ∀ b : UCHAR,
    prvucMBCHAR2BIN (nibbleChar (b >>> 4)) <<< 4 ||| prvucMBCHAR2BIN (nibbleChar (b &&& 0x0F)) = b ∧
      nibbleChar (b >>> 4) ∉ [colon, defaultCR] ∧ nibbleChar (b &&& 0x0F) ∉ [colon, defaultCR] := by
  decide +kernel

theorem length_text (os : List UCHAR) : (text os).length = 2 * os.length := by
  induction os with
  | nil => rfl
  | cons b os ih =>
    rw [text, List.length_cons, List.length_cons, List.length_cons, ih]
    omega

theorem octets_text (os : List UCHAR) : octets (text os) = os := by
  induction os with
  | nil => rfl
  | cons b os ih => rw [text, octets, ih, (nibbleChar_spec b).1]

theorem not_mem_text (os : List UCHAR) : colon ∉ text os ∧ defaultCR ∉ text os := by
  induction os with
  | nil => simp [text]
  | cons b os ih =>
    have hb := (nibbleChar_spec b).2
    simp only [text, List.mem_cons, not_or, List.not_mem_nil, not_false_eq_true, and_true] at hb ⊢
    exact ⟨⟨Ne.symm hb.1.1, Ne.symm hb.2.1, ih.1⟩, Ne.symm hb.1.2, Ne.symm hb.2.2, ih.2⟩

/-- The sum of a frame is zero. -/
theorem sum_frameOctets (a : UCHAR) (pdu : List UCHAR) : (frameOctets a pdu).sum = 0 := by
  rw [frameOctets, List.sum_append, List.sum_singleton]
  exact BitVec.add_right_neg _

/-! ## Sending -/

variable {s t u : AsciiSlave} {cs ds os : List UCHAR} {m n : Nat}

/-- From `s` to `t` the transmitter has sent `cs`, and posted nothing. -/
structure Sent (s t : AsciiSlave) (cs : List UCHAR) : Prop where
  uartTx : t.board.uartTx = s.board.uartTx ++ cs
  rcvState : t.rcvState = s.rcvState
  lf : t.ucMBLFCharacter = s.ucMBLFCharacter
  posted : t.modbus.posted = s.modbus.posted
  data : t.store.mem.data = s.store.mem.data

theorem Sent.trans (h : Sent s t cs) (h' : Sent t u ds) : Sent s u (cs ++ ds) :=
  ⟨by rw [h'.uartTx, h.uartTx, List.append_assoc], h'.rcvState.trans h.rcvState, h'.lf.trans h.lf,
    h'.posted.trans h.posted, h'.data.trans h.data⟩

theorem transmit_add (m n : Nat) (s : AsciiSlave) : transmit (m + n) s = transmit m s >>= transmit n := by
  induction m generalizing s with
  | zero =>
    rw [Nat.zero_add]
    rfl
  | succ m ih =>
    rw [Nat.succ_add, transmit, transmit]
    cases xMBASCIITransmitFSM s with
    | error e => rfl
    | ok t => exact ih t

/-- The two characters of the next octet. -/
theorem transmit_octet (hrcv : s.rcvState = .rxIdle) (hsnd : s.sndState = .txData)
    (hbyte : s.eBytePos = .highNibble)
    (hcount : 0 < s.modbus.usSndBufferCount) :
    ∃ t, transmit 2 s = .ok t ∧
      Sent s t (text [s.store.mem.data s.modbus.pucSndBufferCur.obj s.modbus.pucSndBufferCur.off]) ∧
      t.sndState = .txData ∧ t.eBytePos = .highNibble ∧
      t.modbus.usSndBufferCount = s.modbus.usSndBufferCount - 1 ∧
      t.modbus.pucSndBufferCur = s.modbus.pucSndBufferCur.add 1 := by
  let p := s.modbus.pucSndBufferCur
  let b := s.store.mem.data p.obj p.off
  obtain ⟨hhigh, hlow⟩ := nibble_le b
  have h1 : xMBASCIITransmitFSM s = .ok { s with
      store.mem := s.store.mem.touch p
      board := bspUartTransmit s.board [nibbleChar (b >>> 4)] 1
      eBytePos := .lowNibble } := by
    simp only [xMBASCIITransmitFSM, hrcv, hsnd, hbyte, if_true, if_pos hcount, prvucMBBIN2CHAR_eq _ hhigh, b, p]
    rfl
  have h2 : xMBASCIITransmitFSM { s with
      store.mem := s.store.mem.touch p
      board := bspUartTransmit s.board [nibbleChar (b >>> 4)] 1
      eBytePos := .lowNibble } = .ok { s with
      store.mem := (s.store.mem.touch p).touch p
      board := bspUartTransmit (bspUartTransmit s.board [nibbleChar (b >>> 4)] 1) [nibbleChar (b &&& 0x0F)] 1
      modbus.pucSndBufferCur := p.add 1
      modbus.usSndBufferCount := s.modbus.usSndBufferCount - 1
      eBytePos := .highNibble } := by
    simp only [xMBASCIITransmitFSM, hrcv, hsnd, if_true, if_pos hcount, Mem.touch_data,
      prvucMBBIN2CHAR_eq _ hlow, b, p]
    rfl
  rw [transmit, h1]
  refine ⟨_, congrArg (· >>= transmit 0) h2, ⟨?_, rfl, rfl, rfl, rfl⟩, hsnd, rfl, rfl, rfl⟩
  simp [bspUartTransmit, text, b, p]

/-- The characters of all octets. -/
theorem transmit_octets (hrcv : s.rcvState = .rxIdle) (hsnd : s.sndState = .txData)
    (hbyte : s.eBytePos = .highNibble)
    (hcount : s.modbus.usSndBufferCount = os.length) (hos : s.store.mem.Holds s.modbus.pucSndBufferCur os) :
    ∃ t, transmit (2 * os.length) s = .ok t ∧ Sent s t (text os) ∧ t.sndState = .txData ∧
      t.modbus.usSndBufferCount = 0 := by
  induction os generalizing s with
  | nil => exact ⟨s, rfl, ⟨by simp [text], rfl, rfl, rfl, rfl⟩, hsnd, hcount⟩
  | cons b os ih =>
    rw [List.length_cons] at hcount
    obtain ⟨hb, hrest⟩ := Mem.holds_cons.mp hos
    obtain ⟨t, ht, hsent, hsnd', hbyte', hcount', hcur'⟩ := transmit_octet hrcv hsnd hbyte (by omega)
    have hos' : t.store.mem.Holds t.modbus.pucSndBufferCur os := by
      rw [hcur']
      exact hrest.congr fun _ _ _ => by rw [hsent.data]
    obtain ⟨u, hu, hsent', hsnd'', hcount''⟩ := ih (hsent.rcvState.trans hrcv) hsnd' hbyte' (by omega) hos'
    rw [hb] at hsent
    refine ⟨u, ?_, hsent.trans hsent', hsnd'', hcount''⟩
    rw [List.length_cons, Nat.mul_succ, Nat.add_comm, transmit_add, ht]
    exact hu

/-- The end of a frame; the driver-enable line is released last. -/
theorem transmit_end (hrcv : s.rcvState = .rxIdle) (hsnd : s.sndState = .txData)
    (hcount : s.modbus.usSndBufferCount = 0) :
    ∃ t, transmit 3 s = .ok t ∧ t.board.uartTx = s.board.uartTx ++ [defaultCR, s.ucMBLFCharacter] ∧
      t.sndState = .txIdle ∧ t.board.rs485De = false ∧ t.modbus.posted = .evFrameSent :: s.modbus.posted := by
  have h1 : xMBASCIITransmitFSM s =
      .ok { s with board := bspUartTransmit s.board [defaultCR] 1, sndState := .txEnd } := by
    have hzero : ¬ s.modbus.usSndBufferCount > 0 := by omega
    rw [xMBASCIITransmitFSM, if_pos hrcv]
    simp only [hsnd, if_neg hzero]
    rfl
  have h2 : xMBASCIITransmitFSM { s with board := bspUartTransmit s.board [defaultCR] 1, sndState := .txEnd } =
      .ok { s with
        board := bspUartTransmit (bspUartTransmit s.board [defaultCR] 1) [s.ucMBLFCharacter] 1
        sndState := .txNotify } := by
    simp only [xMBASCIITransmitFSM, hrcv, if_true]
    rfl
  rw [transmit, h1]
  change ∃ t, (xMBASCIITransmitFSM _ >>= transmit 1) = _ ∧ _
  rw [h2]
  change ∃ t, (xMBASCIITransmitFSM _ >>= transmit 0) = _ ∧ _
  simp only [xMBASCIITransmitFSM, hrcv, if_true]
  refine ⟨_, rfl, ?_, rfl, rfl, rfl⟩
  simp [bspUartTransmit]

/-- The octets that are sent. -/
theorem holds_buildFrame (s : AsciiSlave) (a : UCHAR) (n : Nat) :
    (call (buildFrame s a (s.ucASCIIBuf.add 1) n) s.store).2.mem.Holds s.ucASCIIBuf
      (frameOctets a (s.store.mem.slice (s.ucASCIIBuf.add 1) n)) := by
  have hslice : (s.store.mem.store s.ucASCIIBuf a).slice s.ucASCIIBuf (1 + n) =
      a :: s.store.mem.slice (s.ucASCIIBuf.add 1) n := by
    rw [Nat.add_comm, Mem.slice_cons, Mem.store_data, if_pos ⟨rfl, rfl⟩,
      Mem.slice_store fun _ => Or.inl (Nat.lt_succ_self _)]
  simp only [buildFrame, Ptr.pred_add_succ, Ptr.add_zero, call_bind, call_wr, call_prvucMBLRC, hslice]
  rw [frameOctets, Mem.holds_append]
  constructor
  · have hlen : (a :: s.store.mem.slice (s.ucASCIIBuf.add 1) n).length = 1 + n := by
      simp [Nat.add_comm]
    rw [Mem.Holds, hlen, Mem.slice_store fun _ => Or.inr (Nat.le_refl _), Mem.slice_touchN, hslice]
  · rw [Mem.holds_cons]
    refine ⟨if_pos ⟨rfl, ?_⟩, Mem.holds_nil⟩
    simp [Nat.add_comm]

/-- `eMBASCIISend` of the PDU behind the address cell of the buffer starts the frame. -/
theorem send_starts (hrcv : s.rcvState = .rxIdle) (a : UCHAR) (n : Nat) :
    ∃ t, eMBASCIISend a (s.ucASCIIBuf.add 1) n s = .ok (.enoerr, t) ∧
      t.board.uartTx = s.board.uartTx ++ [colon] ∧ t.rcvState = .rxIdle ∧ t.sndState = .txData ∧
      t.eBytePos = .highNibble ∧ t.modbus.usSndBufferCount = n + 2 ∧
      t.modbus.pucSndBufferCur = s.ucASCIIBuf ∧ t.ucASCIIBuf = s.ucASCIIBuf ∧
      t.store = (call (buildFrame s a (s.ucASCIIBuf.add 1) n) s.store).2 ∧
      t.ucMBLFCharacter = s.ucMBLFCharacter ∧ t.modbus.posted = s.modbus.posted := by
  rw [eMBASCIISend, if_pos hrcv]
  simp only [vMBPortSerialEnable, xMBASCIITransmitFSM, hrcv, if_true]
  refine ⟨_, rfl, ?_, rfl, rfl, rfl, ?_, rfl, rfl, rfl, rfl, rfl⟩
  · simp [xMBPortSerialPutByte, bspUartTransmit]
  · show 1 + n + 1 = n + 2
    omega

/-- `eMBASCIISend` of the PDU behind the address cell of the buffer, and the transmitter-empty
interrupts that follow, put the frame on the line. -/
theorem send_wire (hrcv : s.rcvState = .rxIdle) (hlf : s.ucMBLFCharacter = defaultLF) (a : UCHAR) (n : Nat) :
    ∃ t u, eMBASCIISend a (s.ucASCIIBuf.add 1) n s = .ok (.enoerr, t) ∧
      transmit (2 * (n + 2) + 3) t = .ok u ∧
      u.board.uartTx = s.board.uartTx ++ wire (frameOctets a (s.store.mem.slice (s.ucASCIIBuf.add 1) n)) ∧
      u.sndState = .txIdle ∧ u.board.rs485De = false ∧ u.modbus.posted = .evFrameSent :: s.modbus.posted := by
  let pdu := s.store.mem.slice (s.ucASCIIBuf.add 1) n
  let st := (call (buildFrame s a (s.ucASCIIBuf.add 1) n) s.store).2
  have hmem : st.mem.Holds s.ucASCIIBuf (frameOctets a pdu) := holds_buildFrame s a n
  have hlen : (frameOctets a pdu).length = n + 2 := by simp [frameOctets, pdu]
  obtain ⟨t, hok, htx, hrcv', hsnd', hbyte', hcount', hcur', -, hst, hlf', hposted'⟩ := send_starts hrcv a n
  rw [← hlen] at hcount'
  have hos : t.store.mem.Holds t.modbus.pucSndBufferCur (frameOctets a pdu) := by
    rw [hst, hcur']
    exact hmem
  obtain ⟨t', ht', hsent, hsnd'', hcount''⟩ := transmit_octets hrcv' hsnd' hbyte' hcount' hos
  obtain ⟨u, hu, htx', hidle, hde, hposted⟩ := transmit_end (hsent.rcvState.trans hrcv') hsnd'' hcount''
  refine ⟨t, u, hok, ?_, ?_, hidle, hde, ?_⟩
  · rw [transmit_add, ← hlen, ht']
    exact hu
  · rw [htx', hsent.uartTx, htx, hsent.lf, hlf', hlf]
    simp [wire, pdu]
  · rw [hposted, hsent.posted, hposted']

/-! ## The memory of the sender -/

/-- What is still to be sent lies in the buffer. -/
structure Queued (s : AsciiSlave) : Prop where
  obj : s.modbus.pucSndBufferCur.obj = s.ucASCIIBuf.obj
  le : s.ucASCIIBuf.off ≤ s.modbus.pucSndBufferCur.off
  room : s.modbus.pucSndBufferCur.off + s.modbus.usSndBufferCount ≤ s.ucASCIIBuf.off + 256

/-- The transmitter reads what is to be sent, and nothing else. -/
theorem transmitFSM_confined (hq : Queued s) (h : xMBASCIITransmitFSM s = .ok t) :
    Confined s t ∧ Queued t := by
  obtain ⟨hobj, hle, hroom⟩ := hq
  have htouch (hcount : s.modbus.usSndBufferCount > 0) (u : AsciiSlave) (hbuf : u.ucASCIIBuf = s.ucASCIIBuf)
      (hstore : u.store = { s.store with mem := s.store.mem.touch s.modbus.pucSndBufferCur }) :
      Confined s u :=
    .of_touchN (n := 1) hobj hle (by omega) hbuf hstore
  obtain ⟨hhigh, hlow⟩ :=
    nibble_le (s.store.mem.data s.modbus.pucSndBufferCur.obj s.modbus.pucSndBufferCur.off)
  rw [xMBASCIITransmitFSM] at h
  split at h
  · cases hsnd : s.sndState with
    | txStart =>
      simp only [hsnd] at h
      cases h
      exact ⟨.of_eq rfl rfl, hobj, hle, hroom⟩
    | txData =>
      simp only [hsnd] at h
      split at h
      · next hcount =>
        cases hbyte : s.eBytePos with
        | highNibble =>
          simp only [hbyte, prvucMBBIN2CHAR_eq _ hhigh] at h
          cases h
          exact ⟨htouch hcount _ rfl rfl, hobj, hle, hroom⟩
        | lowNibble =>
          simp only [hbyte, prvucMBBIN2CHAR_eq _ hlow] at h
          cases h
          refine ⟨htouch hcount _ rfl rfl, hobj, Nat.le_succ_of_le hle, ?_⟩
          show s.modbus.pucSndBufferCur.off + 1 + (s.modbus.usSndBufferCount - 1) ≤ s.ucASCIIBuf.off + 256
          omega
      · cases h
        exact ⟨.of_eq rfl rfl, hobj, hle, hroom⟩
    | txEnd =>
      simp only [hsnd] at h
      cases h
      exact ⟨.of_eq rfl rfl, hobj, hle, hroom⟩
    | txNotify =>
      simp only [hsnd] at h
      cases h
      exact ⟨.of_eq rfl rfl, hobj, hle, hroom⟩
    | txIdle =>
      simp only [hsnd] at h
      cases h
      exact ⟨.of_eq rfl rfl, hobj, hle, hroom⟩
  · cases h

theorem transmit_confined (hq : Queued s) (h : transmit n s = .ok t) : Confined s t := by
  induction n generalizing s with
  | zero =>
    cases h
    exact .of_eq rfl rfl
  | succ n ih =>
    rw [transmit] at h
    cases hfsm : xMBASCIITransmitFSM s with
    | error e =>
      rw [hfsm] at h
      cases h
    | ok u =>
      obtain ⟨hconf, hq'⟩ := transmitFSM_confined hq hfsm
      rw [hfsm] at h
      exact hconf.trans (ih hq' h)

/-- A PDU that fits leaves room for the LRC. -/
theorem send_confined {a : UCHAR} (hrcv : s.rcvState = .rxIdle) (hn : n ≤ 253)
    (h : eMBASCIISend a (s.ucASCIIBuf.add 1) n s = .ok (.enoerr, t)) : Confined s t ∧ Queued t := by
  let s₁ : AsciiSlave := { s with store.mem := s.store.mem.store s.ucASCIIBuf a }
  let s₂ : AsciiSlave := { s₁ with store.mem := s₁.store.mem.touchN s.ucASCIIBuf (1 + n) }
  let lrc : UCHAR := -(s₁.store.mem.slice s.ucASCIIBuf (1 + n)).sum
  let s₃ : AsciiSlave := { s₂ with store.mem := s₂.store.mem.store (s.ucASCIIBuf.add (1 + n)) lrc }
  have h₁ : Confined s s₁ := by
    refine .of_store (n := 0) (v := a) (by decide) rfl ?_ (fun _ ha => List.mem_cons.mp ha) ⟨rfl, rfl⟩
    rw [Ptr.add_zero]
  have h₂ : Confined s₁ s₂ := .of_touchN rfl (Nat.le_refl _) (by omega) rfl rfl
  have h₃ : Confined s₂ s₃ :=
    .of_store (n := 1 + n) (v := lrc) (by omega) rfl rfl (fun _ ha => List.mem_cons.mp ha) ⟨rfl, rfl⟩
  have hbuild : (call (buildFrame s a (s.ucASCIIBuf.add 1) n) s.store).2 = s₃.store := by
    simp only [buildFrame, Ptr.pred_add_succ, Ptr.add_zero, call_bind, call_wr, call_prvucMBLRC]
    rfl
  obtain ⟨u, hu, -, -, -, -, hcount, hcur, hbuf, hst, -, -⟩ := send_starts hrcv a n
  obtain rfl : u = t := (Prod.mk.inj (Except.ok.inj (hu.symm.trans h))).2
  refine ⟨h₁.trans (h₂.trans (h₃.trans (.of_eq hbuf (hst.trans hbuild)))), ?_, ?_, ?_⟩
  · rw [hcur, hbuf]
  · rw [hcur, hbuf]
  · rw [hcur, hbuf, hcount]
    omega

/-! ## Receiving what was sent -/

theorem next_ready (h : Ready s) (c : UCHAR) : receiver.next (s, none) (.char c) = some (rxCase c s, none) := by
  simp only [receiver, if_true, arrive_eq h]

/-- The characters of a text, while a frame is open. -/
theorem feed_text (h : Ready s) (hs : Tracks s (.text cs)) (hcolon : colon ∉ ds) (hcr : defaultCR ∉ ds)
    (hlen : cs.length + ds.length ≤ 512) :
    ∃ t, receiver.Run Lts.any (s, none) (ds.map .char) (t, none) ∧ Ready t ∧ Tracks t (.text (cs ++ ds)) ∧
      t.modbus.posted = s.modbus.posted := by
  induction ds generalizing s cs with
  | nil => exact ⟨s, .nil, h, by simpa using hs, rfl⟩
  | cons d ds ih =>
    simp only [List.mem_cons, not_or] at hcolon hcr
    rw [List.length_cons] at hlen
    have hstart : d ≠ format.start := Ne.symm hcolon.1
    have hend : d ≠ format.cr := Ne.symm hcr.1
    have hchar : (Scan.text cs).char format d = .text (cs ++ [d]) := by
      rw [Scan.char, if_neg hstart, if_neg hend, if_pos (by rw [format_limit]; omega)]
    obtain ⟨h', hs'⟩ := rxCase_text h hs (by omega) d
    rw [hchar] at hs'
    have hposted := (rxCase_posted h hs d).2 rfl
    obtain ⟨t, hr, ht, htracks, hposted'⟩ := ih h' hs' hcolon.2 hcr.2
      (by rw [List.length_append, List.length_singleton]; omega)
    refine ⟨t, hr.cons trivial (next_ready h d), ht, ?_, hposted'.trans hposted⟩
    rwa [List.append_assoc] at htracks

/-- A start character opens a frame wherever the receiver is. -/
theorem feed_colon (h : Ready s) (hs : Tracks s q) (hlen : ∀ cs, q = .text cs → cs.length ≤ 512) :
    Ready (rxCase colon s) ∧ Tracks (rxCase colon s) (.text []) ∧
      (rxCase colon s).modbus.posted = s.modbus.posted := by
  have hchar : q.char format colon = .text [] ∧ q.found format colon = none := by
    cases q with
    | idle timing => exact ⟨rfl, rfl⟩
    | text cs => exact ⟨rfl, rfl⟩
    | closed cs => exact ⟨rfl, rfl⟩
  obtain ⟨h', hs'⟩ := rxCase_tracks h hs hlen colon
  exact ⟨h', hchar.1 ▸ hs', (rxCase_posted h hs colon).2 hchar.2⟩

/-- The end characters complete the frame. -/
theorem feed_end (h : Ready s) (hs : Tracks s (.text cs)) (hlen : cs.length ≤ 512) :
    ∃ t, receiver.Run Lts.any (s, none) ([defaultCR, defaultLF].map .char) (t, none) ∧
      t.modbus.posted = .evFrameReceived :: s.modbus.posted ∧ Buffered t cs := by
  obtain ⟨h', hs'⟩ := rxCase_text h hs hlen defaultCR
  have hclosed : Tracks (rxCase defaultCR s) (.closed cs) := hs'
  obtain ⟨hposted, hbuf⟩ := (rxCase_posted h' hclosed defaultLF).1 cs rfl
  rw [(rxCase_posted h hs defaultCR).2 rfl] at hposted
  exact ⟨_, .cons trivial (next_ready h _) (.cons trivial (next_ready h' _) .nil), hposted, hbuf⟩

/-- A frame on the line is delivered to a receiver, whatever it has seen before. -/
theorem wire_delivered {σ τ : AsciiSlave × Option Assertion} {ins : List Input} (hi : receiver.init σ)
    (hr : receiver.Run Lts.any σ ins τ) (herr : τ.2 = none) (a : UCHAR) {pdu : List UCHAR} (hpdu : pdu ≠ [])
    (hlen : pdu.length ≤ 253) :
    ∃ υ, receiver.Run Lts.any τ ((wire (frameOctets a pdu)).map .char) (υ, none) ∧ Delivers τ.1 υ a pdu := by
  obtain ⟨τ, e⟩ := τ
  cases herr
  obtain ⟨q, hq, hready, htracks, -⟩ := run_tracks hi hr rfl
  obtain ⟨h₁, hs₁, hposted₁⟩ := feed_colon hready htracks fun cs h => ((text_iff hq).mp h).2.2.2
  obtain ⟨hcolon, hcr⟩ := not_mem_text (frameOctets a pdu)
  have hoctets : (frameOctets a pdu).length = pdu.length + 2 := by simp [frameOctets]
  have hlen' := length_text (frameOctets a pdu)
  obtain ⟨t, hr₂, h₂, hs₂, hposted₂⟩ := feed_text h₁ hs₁ hcolon hcr (by rw [hlen', List.length_nil]; omega)
  obtain ⟨υ, hr₃, hposted₃, hbuf⟩ := feed_end h₂ hs₂ (by rw [List.nil_append]; omega)
  refine ⟨υ, ?_, ?_, (receives_iff hbuf).mpr ⟨by rw [List.nil_append]; omega, hpdu, -(a :: pdu).sum, ?_⟩⟩
  · rw [wire, List.cons_append, List.map_cons, List.map_append]
    exact .cons trivial (next_ready hready _) (hr₂.append hr₃)
  · rw [hposted₃, hposted₂, hposted₁]
  · rw [List.nil_append, octets_text]
    exact ⟨rfl, sum_frameOctets a pdu⟩

end Rs485.Modbus.Ascii
