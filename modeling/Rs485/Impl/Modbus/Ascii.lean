import Rs485.Framework.Lts
import Rs485.Impl.Modbus.Port

/-!
# ASCII framing (`mbascii.c`)

The functions of the ASCII mode. They use the port, the event slot, the buffer
position and the send buffer as those of the RTU mode do; what they have of their
own is in `AsciiSlave`. The repository never starts the mode, and lacks what it
needs for it: nothing sets the pointer `ucASCIIBuf`, and of the two states, blocks
of the heap in the source, nothing sets the transmitter's. `Provided` says what a
user of the mode has to add.
-/

namespace Rs485.Modbus.Ascii

open Rs485.Framework

/-- `eMBBytePos`. -/
inductive MBBytePos
  | highNibble | lowNibble
deriving DecidableEq, Repr

/-- `eMBRcvState` of `mbascii.c`. -/
inductive MBRcvState
  | rxIdle | rxRcv | rxWaitEof
deriving DecidableEq, Repr

/-- `eMBSndState` of `mbascii.c`. -/
inductive MBSndState
  | txIdle | txStart | txData | txEnd | txNotify
deriving DecidableEq, Repr

/-- The assertions of `mbascii.c`. -/
inductive Assertion
  | receivePos | receiveSndIdle | transmitRcvIdle | t1sState | bin2Char
deriving DecidableEq, Repr

/-- A slave in ASCII mode. -/
structure AsciiSlave extends Slave where
  ucASCIIBuf : Ptr Obj
  eBytePos : MBBytePos
  ucMBLFCharacter : UCHAR
  rcvState : MBRcvState
  sndState : MBSndState

/-- What the source does not establish: `ucASCIIBuf` points to the buffer of the RTU mode, which
`mbascii.c` says is reused, and the transmitter is idle. -/
structure Provided (s : AsciiSlave) : Prop where
  ucASCIIBuf : s.ucASCIIBuf = s.modbus.ucRTUBuf
  sndState : s.sndState = .txIdle

/-- `':'`, `MB_ASCII_DEFAULT_CR` and `MB_ASCII_DEFAULT_LF`. -/
abbrev colon : UCHAR := 0x3A
abbrev defaultCR : UCHAR := 0x0D
abbrev defaultLF : UCHAR := 0x0A

/-! ## Nibbles and the LRC -/

/-- `prvucMBCHAR2BIN`. -/
def prvucMBCHAR2BIN (ucCharacter : UCHAR) : UCHAR :=
  if 0x30 ≤ ucCharacter ∧ ucCharacter ≤ 0x39 then ucCharacter - 0x30
  else if 0x41 ≤ ucCharacter ∧ ucCharacter ≤ 0x46 then ucCharacter - 0x41 + 0x0A
  else 0xFF

/-- `prvucMBBIN2CHAR`. -/
def prvucMBBIN2CHAR (ucByte : UCHAR) : Except Assertion UCHAR :=
  if ucByte ≤ 0x09 then .ok (0x30 + ucByte)
  else if 0x0A ≤ ucByte ∧ ucByte ≤ 0x0F then .ok (ucByte - 0x0A + 0x41)
  else .error .bin2Char

/-- The loop of `prvucMBLRC`. -/
def lrcLoop : Nat → Ptr Obj → UCHAR → StoreM UCHAR
  | 0, _, ucLRC => pure ucLRC
  | usLen + 1, pucFrame, ucLRC => do
    let b ← rd pucFrame
    lrcLoop usLen (pucFrame.add 1) (ucLRC + b)

/-- `prvucMBLRC`. -/
def prvucMBLRC (pucFrame : Ptr Obj) (usLen : Nat) : StoreM UCHAR := do
  let ucLRC ← lrcLoop usLen pucFrame 0
  return -ucLRC

/-! ## The port -/

/-- `xMBPortSerialPutByte`. -/
def xMBPortSerialPutByte (s : AsciiSlave) (ucByte : UCHAR) : AsciiSlave :=
  { s with board := bspUartTransmit s.board [ucByte] 1 }

/-- `vMBPortSerialEnable`, with the callback `pxMBFrameCBTransmitterEmpty`. -/
def vMBPortSerialEnable (pxMBFrameCBTransmitterEmpty : AsciiSlave → Except Assertion AsciiSlave)
    (xRxEnable xTxEnable : Bool) (s : AsciiSlave) : Except Assertion AsciiSlave :=
  let s := if xRxEnable then { s with board.rs485De := false } else s
  if xTxEnable then pxMBFrameCBTransmitterEmpty { s with board.rs485De := true } else .ok s

/-- `vMBPortTimersEnable`. -/
def timersEnable (s : AsciiSlave) : AsciiSlave := { s with toSlave := vMBPortTimersEnable s.toSlave }

/-- `vMBPortTimersDisable`. -/
def timersDisable (s : AsciiSlave) : AsciiSlave := { s with toSlave := vMBPortTimersDisable s.toSlave }

/-! ## Receiving -/

/-- What `eMBASCIIReceive` finds in the buffer (`MB_ENOERR`), or nothing (`MB_EIO`). -/
def receiveFrame (s : AsciiSlave) : StoreM (Option (UCHAR × Ptr Obj × Nat)) := do
  if s.modbus.usRcvBufferPos ≥ 3 then
    let lrc ← prvucMBLRC s.ucASCIIBuf s.modbus.usRcvBufferPos
    if lrc = 0 then
      let ucRcvAddress ← rd s.ucASCIIBuf
      return some (ucRcvAddress, s.ucASCIIBuf.add 1, s.modbus.usRcvBufferPos - 1 - 1)
    else
      return none
  else
    return none

/-- `eMBASCIIReceive`. -/
def eMBASCIIReceive (s : AsciiSlave) : Except Assertion (Option (UCHAR × Ptr Obj × Nat) × AsciiSlave) :=
  if s.modbus.usRcvBufferPos < 256 then
    let r := call (receiveFrame s) s.store
    .ok (r.1, { s with store := r.2 })
  else
    .error .receivePos

/-- `case BYTE_HIGH_NIBBLE`: a full buffer ends the frame. -/
def rxHighNibble (ucResult : UCHAR) (s : AsciiSlave) : AsciiSlave :=
  if s.modbus.usRcvBufferPos < 256 then
    { s with
      store.mem := s.store.mem.store (s.ucASCIIBuf.add s.modbus.usRcvBufferPos) (ucResult <<< 4)
      eBytePos := .lowNibble }
  else
    timersDisable { s with rcvState := .rxIdle }

/-- `case BYTE_LOW_NIBBLE`: `|=` reads the byte and writes it. -/
def rxLowNibble (ucResult : UCHAR) (s : AsciiSlave) : AsciiSlave :=
  let p := s.ucASCIIBuf.add s.modbus.usRcvBufferPos
  { s with
    store.mem := (s.store.mem.touch p).store p (s.store.mem.data p.obj p.off ||| ucResult)
    modbus.usRcvBufferPos := s.modbus.usRcvBufferPos + 1
    eBytePos := .highNibble }

/-- The buffer is emptied. -/
def rxStart (s : AsciiSlave) : AsciiSlave :=
  { s with eBytePos := .highNibble, modbus.usRcvBufferPos := 0 }

/-- The switch of `xMBASCIIReceiveFSM`. -/
def rxCase (ucByte : UCHAR) (s : AsciiSlave) : AsciiSlave :=
  match s.rcvState with
  | .rxRcv =>
    let s := timersEnable s
    if ucByte = colon then rxStart s
    else if ucByte = defaultCR then { s with rcvState := .rxWaitEof }
    else
      let ucResult := prvucMBCHAR2BIN ucByte
      match s.eBytePos with
      | .highNibble => rxHighNibble ucResult s
      | .lowNibble => rxLowNibble ucResult s
  | .rxWaitEof =>
    if ucByte = s.ucMBLFCharacter then
      let s := timersDisable s
      { s with rcvState := .rxIdle, modbus := xMBPortEventPost s.modbus .evFrameReceived }
    else if ucByte = colon then timersEnable { rxStart s with rcvState := .rxRcv }
    else { s with rcvState := .rxIdle }
  | .rxIdle =>
    if ucByte = colon then { rxStart (timersEnable s) with rcvState := .rxRcv } else s

/-- `xMBASCIIReceiveFSM`; `late` and `junk` are as in `xMBRTUReceiveFSM`. -/
def xMBASCIIReceiveFSM (late : Bool) (junk : UCHAR) (s : AsciiSlave) : Except Assertion AsciiSlave :=
  if s.sndState = .txIdle then
    let r := xMBPortSerialGetByte late s.board
    .ok (rxCase (r.1.getD junk) { s with board := r.2 })
  else
    .error .receiveSndIdle

/-- `xMBASCIITimerT1SExpired`. -/
def xMBASCIITimerT1SExpired (s : AsciiSlave) : Except Assertion AsciiSlave :=
  match s.rcvState with
  | .rxRcv | .rxWaitEof => .ok (timersDisable { s with rcvState := .rxIdle })
  | .rxIdle => .error .t1sState

/-! ## Sending -/

/-- `xMBASCIITransmitFSM`. Its calls of `vMBPortSerialEnable` do not enable the
transmitter, so that they do not call back. -/
def xMBASCIITransmitFSM (s : AsciiSlave) : Except Assertion AsciiSlave :=
  if s.rcvState = .rxIdle then
    match s.sndState with
    | .txStart => .ok { xMBPortSerialPutByte s colon with sndState := .txData, eBytePos := .highNibble }
    | .txData =>
      if s.modbus.usSndBufferCount > 0 then
        let b := s.store.mem.data s.modbus.pucSndBufferCur.obj s.modbus.pucSndBufferCur.off
        let t := { s with store.mem := s.store.mem.touch s.modbus.pucSndBufferCur }
        match s.eBytePos with
        | .highNibble => do
          let ucByte ← prvucMBBIN2CHAR (b >>> 4)
          return { xMBPortSerialPutByte t ucByte with eBytePos := .lowNibble }
        | .lowNibble => do
          let ucByte ← prvucMBBIN2CHAR (b &&& 0x0F)
          return { xMBPortSerialPutByte t ucByte with
            modbus.pucSndBufferCur := s.modbus.pucSndBufferCur.add 1
            eBytePos := .highNibble
            modbus.usSndBufferCount := s.modbus.usSndBufferCount - 1 }
      else
        .ok { xMBPortSerialPutByte s defaultCR with sndState := .txEnd }
    | .txEnd => .ok { xMBPortSerialPutByte s s.ucMBLFCharacter with sndState := .txNotify }
    | .txNotify => do
      let s := { s with sndState := .txIdle, modbus := xMBPortEventPost s.modbus .evFrameSent }
      let s ← vMBPortSerialEnable .ok true false s
      return { s with sndState := .txIdle }
    | .txIdle => vMBPortSerialEnable .ok true false s
  else
    .error .transmitRcvIdle

/-- The transmitter has become empty `n` times. -/
def transmit : Nat → AsciiSlave → Except Assertion AsciiSlave
  | 0, s => .ok s
  | n + 1, s => do
    let s ← xMBASCIITransmitFSM s
    transmit n s

/-- What `eMBASCIISend` puts into the buffer: the address before the PDU at `pucFrame`, the
LRC behind it. -/
def buildFrame (s : AsciiSlave) (ucSlaveAddress : UCHAR) (pucFrame : Ptr Obj) (usLength : Nat) :
    StoreM Unit := do
  wr pucFrame.pred ucSlaveAddress
  let usLRC ← prvucMBLRC pucFrame.pred (1 + usLength)
  wr (s.ucASCIIBuf.add (1 + usLength)) usLRC

/-- `eMBASCIISend`. -/
def eMBASCIISend (ucSlaveAddress : UCHAR) (pucFrame : Ptr Obj) (usLength : Nat) (s : AsciiSlave) :
    Except Assertion (MBErrorCode × AsciiSlave) :=
  if s.rcvState = .rxIdle then do
    let s ← vMBPortSerialEnable xMBASCIITransmitFSM false true
      { s with
        store := (call (buildFrame s ucSlaveAddress pucFrame usLength) s.store).2
        modbus.pucSndBufferCur := pucFrame.pred
        modbus.usSndBufferCount := 1 + usLength + 1
        sndState := .txStart }
    return (.enoerr, s)
  else
    .ok (.eio, s)

/-! ## Starting -/

/-- `eMBASCIIInit`, the part that concerns the instance. The states that it allocates are not
initialized, so that they are arbitrary. -/
def eMBASCIIInit (s : AsciiSlave) (ucPort : UCHAR) : AsciiSlave :=
  { s with ucMBLFCharacter := defaultLF, modbus.ucPort := ucPort }

/-- `eMBASCIIStart`. -/
def eMBASCIIStart (s : AsciiSlave) : Except Assertion AsciiSlave := do
  let s ← vMBPortSerialEnable xMBASCIITransmitFSM true false s
  return { s with rcvState := .rxIdle, modbus := xMBPortEventPost s.modbus .evReady }

/-! ## The receiver -/

/-- What comes to the receiver. -/
inductive Input
  /-- A character arrives, and is read. -/
  | char (c : UCHAR)
  /-- The character timeout expires. -/
  | t1s
deriving DecidableEq, Repr

/-- A character arrives, and `xMBASCIIReceiveFSM` is called for it. -/
def arrive (c : UCHAR) (s : AsciiSlave) : Except Assertion AsciiSlave :=
  xMBASCIIReceiveFSM false 0 { s with board := bspUartRxCb s.board c }

/-- The receiver as a transition system, from `eMBASCIIStart` of a slave that has what the mode
needs. The timer expires only while it runs; a failed assertion ends the run. -/
def receiver : Lts (AsciiSlave × Option Assertion) Input where
  init s := s.2 = none ∧ ∃ r, Provided (eMBASCIIInit r bspRS485) ∧ r.board.htim1Busy = false ∧
    r.board.rxQueue = [] ∧ eMBASCIIStart (eMBASCIIInit r bspRS485) = .ok s.1
  next s i :=
    if s.2 = none then
      match i with
      | .char c =>
        match arrive c s.1 with
        | .ok t => some (t, none)
        | .error e => some (s.1, some e)
      | .t1s =>
        if s.1.board.htim1Busy then
          match xMBASCIITimerT1SExpired s.1 with
          | .ok t => some (t, none)
          | .error e => some (s.1, some e)
        else none
    else none

end Rs485.Modbus.Ascii
