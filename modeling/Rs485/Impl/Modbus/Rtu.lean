import Rs485.Impl.Modbus.Crc
import Rs485.Impl.Modbus.Port

/-!
# RTU framing (`mbrtu.c`)

An assertion of the source ends a function with `.error`. `eMBRTUReceive` and
`eMBRTUSend` run in a critical section, which masks the T3.5 interrupt.
`xMBRTUReceiveFSM` does not: it is the three parts an interrupt can come
between, reading the byte (`rxByte`), the case that the state read then selects
(`rxCase`), and the timer, which every case enables last.
-/

namespace Rs485.Modbus

open Rs485.Framework

/-- `eMBRTUInit`: the part that concerns the instance. -/
def eMBRTUInit (m : EModbus) (ucPort : UCHAR) : EModbus :=
  { m with ucPort := ucPort, sndState := .txIdle, rcvState := .rxInit }

/-- What `eMBRTUReceive` finds in the buffer: the address, the PDU and its length
(`MB_ENOERR`), or nothing (`MB_EIO`). -/
def receiveFrame (m : EModbus) : StoreM (Option (UCHAR × Ptr Obj × Nat)) := do
  if 4 ≤ m.usRcvBufferPos then
    let crc ← usMBCRC16 m.ucRTUBuf m.usRcvBufferPos
    if crc = 0 then
      let ucRcvAddress ← rd m.ucRTUBuf
      return some (ucRcvAddress, m.ucRTUBuf.add 1, m.usRcvBufferPos - 1 - 2)
    else
      return none
  else
    return none

/-- `eMBRTUReceive`. -/
def eMBRTUReceive (s : Slave) : Except Assertion (Option (UCHAR × Ptr Obj × Nat) × Slave) :=
  if s.modbus.usRcvBufferPos < 256 then
    let r := call (receiveFrame s.modbus) s.store
    .ok (r.1, { s with store := r.2 })
  else
    .error .receivePos

/-- The first part of `xMBRTUReceiveFSM`: the byte it works on, which is `junk`
(what the local variable held) if there is none to read. -/
def rxByte (late : Bool) (junk : UCHAR) (s : Slave) : Except Assertion (UCHAR × Slave) :=
  if s.modbus.sndState = .txIdle then
    let r := xMBPortSerialGetByte late s.board
    .ok (r.1.getD junk, { s with board := r.2 })
  else
    .error .receiveSndIdle

/-- The case of `xMBRTUReceiveFSM` for the state `rcvState`, without the timer. -/
def rxCase (rcvState : MBRcvState) (ucByte : UCHAR) (s : Slave) : Slave :=
  match rcvState with
  | .rxInit => s
  | .rxError => s
  | .rxIdle =>
    { s with
      store.mem := s.store.mem.store s.modbus.ucRTUBuf ucByte
      modbus.usRcvBufferPos := 1
      modbus.rcvState := .rxRcv }
  | .rxRcv =>
    if s.modbus.usRcvBufferPos < 256 then
      { s with
        store.mem := s.store.mem.store (s.modbus.ucRTUBuf.add s.modbus.usRcvBufferPos) ucByte
        modbus.usRcvBufferPos := s.modbus.usRcvBufferPos + 1 }
    else
      { s with modbus.rcvState := .rxError }

/-- `xMBRTUReceiveFSM`. -/
def xMBRTUReceiveFSM (late : Bool) (junk : UCHAR) (s : Slave) : Except Assertion Slave := do
  let (ucByte, s) ← rxByte late junk s
  return vMBPortTimersEnable (rxCase s.modbus.rcvState ucByte s)

/-- `xMBRTUTransmitFSM`. Its calls of `vMBPortSerialEnable` do not enable the
transmitter, so that they do not call back. -/
def xMBRTUTransmitFSM (s : Slave) : Except Assertion Slave :=
  if s.modbus.rcvState = .rxIdle then
    match s.modbus.sndState with
    | .txIdle => vMBPortSerialEnable .ok true false s
    | .txXmit =>
      if s.modbus.usSndBufferCount ≠ 0 then
        .ok { s with
          board := xMBPortSerialPutBytes s.board
            (s.modbus.ucRTUBufAddr + BitVec.ofNat 32 s.modbus.pucSndBufferCur.off)
            s.modbus.usSndBufferCount
          modbus.usSndBufferCount := 0 }
      else do
        let s ← vMBPortSerialEnable .ok true false
          { s with modbus := xMBPortEventPost s.modbus .evFrameSent }
        return { s with modbus.sndState := .txIdle }
  else
    .error .transmitRcvIdle

/-- `eMBRTUStart`. -/
def eMBRTUStart (s : Slave) : Except Assertion Slave := do
  let s := { s with modbus.rcvState := .rxInit }
  let s ← vMBPortSerialEnable xMBRTUTransmitFSM true false s
  return vMBPortTimersEnable s

/-- The frame that `eMBRTUSend` builds around the PDU at `pucFrame`: the address
before it, the CRC behind it (low byte first). -/
def buildFrame (m : EModbus) (ucSlaveAddress : UCHAR) (pucFrame : Ptr Obj) (usLength : Nat) :
    StoreM Unit := do
  wr pucFrame.pred ucSlaveAddress
  let usCRC16 ← usMBCRC16 pucFrame.pred (1 + usLength)
  wr (m.ucRTUBuf.add (1 + usLength)) ((usCRC16 &&& 0xFF).setWidth 8)
  wr (m.ucRTUBuf.add (2 + usLength)) ((usCRC16 >>> 8).setWidth 8)

/-- `eMBRTUSend`. -/
def eMBRTUSend (ucSlaveAddress : UCHAR) (pucFrame : Ptr Obj) (usLength : Nat) (s : Slave) :
    Except Assertion (MBErrorCode × Slave) :=
  if s.modbus.rcvState = .rxIdle then do
    let s ← vMBPortSerialEnable xMBRTUTransmitFSM false true
      { s with
        store := (call (buildFrame s.modbus ucSlaveAddress pucFrame usLength) s.store).2
        modbus.pucSndBufferCur := pucFrame.pred
        modbus.usSndBufferCount := 1 + usLength + 2
        modbus.sndState := .txXmit }
    return (.enoerr, s)
  else
    .ok (.eio, s)

/-- `xMBRTUTimerT35Expired`. -/
def xMBRTUTimerT35Expired (s : Slave) : Except Assertion Slave :=
  let leave (m : EModbus) : Slave :=
    let s := vMBPortTimersDisable { s with modbus := m }
    { s with modbus.rcvState := .rxIdle }
  match s.modbus.rcvState with
  | .rxInit => .ok (leave (xMBPortEventPost s.modbus .evReady))
  | .rxRcv => .ok (leave (xMBPortEventPost s.modbus .evFrameReceived))
  | .rxError => .ok (leave s.modbus)
  | .rxIdle => .error .t35State

end Rs485.Modbus
