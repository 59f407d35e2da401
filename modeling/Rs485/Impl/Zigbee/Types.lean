import Rs485.Impl.CQueue

/-!
# The Zigbee module's data (`zigbee.h`)

The parameters, the events, the mesh with its event queue, and the frames that
are sent to the module. `reads` is no field of the source: it records the indices
at which the parsers read `buff`, latest first.
-/

namespace Rs485.Zigbee

open Rs485.Framework Rs485.Utils

abbrev Byte := BitVec 8
abbrev Word := BitVec 16

/-- A pointer (0 is NULL). -/
abbrev Pointer := BitVec 32

/-- `ZIGBEE_BUFFER_SIZE`. -/
abbrev zigbeeBufferSize : Nat := 256 * 4

/-- `ZIGBEE_RES_…`. -/
inductive ZigbeeRes
  | success | fail | timeout
deriving DecidableEq, Repr

/-- `ZigbeeEventType_t`. -/
inductive ZigbeeEventType
  | none | linkModule | readModule | writeModule | resetModule | enterLowpower | getPosition | queryPos
deriving DecidableEq, Repr

/-- `ZigbeeParameter_t`. -/
structure ZigbeeParameter where
  pointType : Byte
  panID : Word
  channel : Byte
  transferModel : Byte
  userAddress : Word
  x7x8 : Word
  uartBraudRate : Byte
  uartDataBits : Byte
  uartStopBits : Byte
  uartParity : Byte
  x13x14 : Word
  antennaSelect : Byte
  macAddress : Vector Byte 8
  prePointType : Byte
  prePanID : Word
  preChannel : Byte
  preTransferModel : Byte
  preUserAddress : Word
  x31x32 : Word
  preUartBraudRate : Byte
  preUartDataBits : Byte
  preUartStopBits : Byte
  preUartParity : Byte
  x37x38 : Word
  preAntennaSelect : Byte
  shortAddress : Word
  x42 : Byte
  isSecurity : Byte
  securityCode : Vector Byte 4
deriving DecidableEq, Repr

/-- `ZigbeeEvent_t`. -/
structure ZigbeeEvent where
  timeout : BitVec 32
  tick : BitVec 32
  event : ZigbeeEventType
  arg : Pointer
  cb : Pointer
deriving DecidableEq, Repr

/-- `struct ZigbeeMesh`. `event_list` is the buffer of `event_queue`. -/
structure ZigbeeMesh where
  param : ZigbeeParameter
  event : ZigbeeEvent
  eventTmp : ZigbeeEvent
  eventQueue : CQueue ZigbeeEvent
  fwVersion0 : Byte
  fwVersion1 : Byte
  buff : Nat → Byte
  buffLen : Nat
  timeReset : BitVec 32
  reads : List Int

/-! ## The frames -/

def linkIns : List Byte := [0xFC, 0x06, 0x04, 0x44, 0x54, 0x4B, 0x52, 0x46, 0x81]
def restartIns : List Byte := [0xFC, 0x06, 0x06, 0x44, 0x54, 0x4B, 0xAA, 0xBB, 0x50]
def readIns : List Byte := [0xFC, 0x06, 0x0E, 0x44, 0x54, 0x4B, 0x52, 0x46, 0x8B]
def queryEndDevicePosition : List Byte := [0xFC, 0x04, 0x0A, 0x22, 0x33, 0x44, 0xA3]
def requestSignalIns : List Byte := [0xFC, 0x06, 0x0C, 0x44, 0x54, 0x4B, 0x52, 0x46, 0x89]
def enterLowPowerIns : List Byte := [0xFC, 0x06, 0x12, 0x44, 0x54, 0x4B, 0x43, 0x4F, 0x89]

/-- The loop of `zigbeeGetXY`: the sum of the bytes. -/
def sumXY (bytes : List Byte) : Byte := bytes.foldl (· + ·) 0

/-- The high and the low byte of a word. -/
def hiLo (w : Word) : List Byte := [((w &&& 0xFF00) >>> 8).setWidth 8, (w &&& 0x00FF).setWidth 8]

/-- The body of the write frame, from `writeHeaderLen` on. -/
def writeBody (p : ZigbeeParameter) : List Byte :=
  [p.pointType] ++ hiLo p.panID ++ [p.channel, p.transferModel] ++ hiLo p.userAddress ++
  hiLo p.x7x8 ++ [p.uartBraudRate, p.uartDataBits, p.uartStopBits, p.uartParity] ++
  hiLo p.x13x14 ++ [p.antennaSelect] ++
  [p.prePointType] ++ hiLo p.prePanID ++ [p.preChannel, p.preTransferModel] ++
  hiLo p.preUserAddress ++ hiLo p.x31x32 ++
  [p.preUartBraudRate, p.preUartDataBits, p.preUartStopBits, p.preUartParity] ++
  hiLo p.x37x38 ++ [p.preAntennaSelect] ++ [0x1, p.isSecurity] ++ p.securityCode.toList

/-- `zigbeeGetWriteIns`: what it leaves in `writeIns`, which is written anew before each use. -/
def zigbeeGetWriteIns (p : ZigbeeParameter) : List Byte :=
  let writeIns := [0xFC, 0x27, 0x07] ++ writeBody p
  writeIns ++ [sumXY writeIns]

/-- The frame sent for an event, from the parameters at that time. -/
def eventFrame (p : ZigbeeParameter) : ZigbeeEventType → Option (List Byte)
  | .none => none
  | .linkModule => some linkIns
  | .readModule => some readIns
  | .writeModule => some (zigbeeGetWriteIns p)
  | .resetModule => some restartIns
  | .enterLowpower => some enterLowPowerIns
  | .getPosition => some requestSignalIns
  | .queryPos => some queryEndDevicePosition

end Rs485.Zigbee
