import Rs485.Framework.Call
import Rs485.Impl.Zigbee.Types

/-!
# The replies of the Zigbee module (`zigbee.c`)

The parsers read `buff` at any index they like, the last index of an empty reply
included: `buff[-1]` is the byte before the array in the struct, `fw_version[1]`.
-/

namespace Rs485.Zigbee

open Rs485.Framework

abbrev readHeaderLen : Nat := 4

/-- A parser of the module. -/
abbrev ZigbeeM := StateM ZigbeeMesh

/-- `inputData[i]`, with `inputData` the array `buff`. -/
def inputData (z : ZigbeeMesh) (i : Int) : Byte := if i < 0 then z.fwVersion1 else z.buff i.toNat

/-- A read of `inputData[i]`. -/
def rd (i : Int) : ZigbeeM Byte :=
  modifyGet fun z => (inputData z i, { z with reads := i :: z.reads })

/-- The reads of the `n` bytes from `inputData[i]` on. -/
def rdBytes (i n : Nat) : ZigbeeM (List Byte) :=
  modifyGet fun z =>
    ((List.range n).map fun k => z.buff (i + k),
      { z with reads := ((List.range n).map fun k => ((i + k : Nat) : Int)) ++ z.reads })

/-- `zigbeeGetXY`. -/
def zigbeeGetXY (inputLen : Nat) : ZigbeeM Byte := do
  let bytes ← rdBytes 0 (inputLen - 1)
  return sumXY bytes

/-- `tempRight == 4`: the header with the length byte `code`, and the checksum. -/
def replyRight (code : Byte) (inputLen : Nat) : ZigbeeM Bool := do
  let tempXY ← zigbeeGetXY inputLen
  let header ← rd 0
  let length ← rd 1
  let instruction ← rd 2
  let last ← rd (inputLen - 1)
  return header = 0xFA ∧ length = code ∧ instruction = 0x0A ∧ last = tempXY

/-- `inputData[i]*256 + inputData[i+1]`, in the body `x` of a reply. -/
def word (x : List Byte) (i : Nat) : Word :=
  (x.getD i 0).setWidth 16 * 256 + (x.getD (i + 1) 0).setWidth 16

/-- The parameters in the body `x` of a reply, from `readHeaderLen` on. -/
def readParam (x : List Byte) : ZigbeeParameter where
  pointType := x.getD 0 0
  panID := word x 1
  channel := x.getD 3 0
  transferModel := x.getD 4 0
  userAddress := word x 5
  x7x8 := word x 7
  uartBraudRate := x.getD 9 0
  uartDataBits := x.getD 10 0
  uartStopBits := x.getD 11 0
  uartParity := x.getD 12 0
  x13x14 := word x 13
  antennaSelect := x.getD 15 0
  macAddress := .ofFn fun i => x.getD (16 + i) 0
  prePointType := x.getD 24 0
  prePanID := word x 25
  preChannel := x.getD 27 0
  preTransferModel := x.getD 28 0
  preUserAddress := word x 29
  x31x32 := word x 31
  preUartBraudRate := x.getD 33 0
  preUartDataBits := x.getD 34 0
  preUartStopBits := x.getD 35 0
  preUartParity := x.getD 36 0
  x37x38 := word x 37
  preAntennaSelect := x.getD 39 0
  shortAddress := word x 40
  x42 := x.getD 42 0
  isSecurity := x.getD 43 0
  securityCode := .ofFn fun i => x.getD (44 + i) 0

/-- `zigbeeReadProcess`. -/
def zigbeeReadProcess (inputLen : Nat) : ZigbeeM ZigbeeRes := do
  if ← replyRight 0x31 inputLen then
    let x ← rdBytes readHeaderLen 48
    modify fun z => { z with param := readParam x }
    return .success
  else
    return .fail

/-- `zigbee_connect_process`. -/
def zigbeeConnectProcess (inputLen : Nat) : ZigbeeM ZigbeeRes := do
  if ← replyRight 0x06 inputLen then
    let hi ← rd 7
    let lo ← rd 8
    modify fun z => { z with fwVersion0 := ((hi.setWidth 32 <<< 8 ||| lo.setWidth 32) / 10).setWidth 8 }
    return .success
  else
    return .fail

/-- A parser that checks the reply and does nothing else. -/
def checkProcess (code : Byte) (inputLen : Nat) : ZigbeeM ZigbeeRes := do
  if ← replyRight code inputLen then
    return .success
  else
    return .fail

/-- `zigbee_reset_process`. -/
def zigbeeResetProcess (inputLen : Nat) : ZigbeeM ZigbeeRes := checkProcess 0x06 inputLen

/-- `zigbee_write_process`. -/
def zigbeeWriteProcess (inputLen : Nat) : ZigbeeM ZigbeeRes := checkProcess 0x01 inputLen

/-- `zigbee_request_signal_process`. -/
def zigbeeRequestSignalProcess (inputLen : Nat) : ZigbeeM ZigbeeRes := checkProcess 0x04 inputLen

/-- `zigbee_query_ed_process`. -/
def zigbeeQueryEdProcess (_inputLen : Nat) : ZigbeeM ZigbeeRes := pure .success

/-- `switch (zigbee->event.event)` of the completion. -/
def process (event : ZigbeeEventType) (inputLen : Nat) : ZigbeeM ZigbeeRes :=
  match event with
  | .linkModule => zigbeeConnectProcess inputLen
  | .readModule => zigbeeReadProcess inputLen
  | .writeModule => zigbeeWriteProcess inputLen
  | .resetModule => zigbeeResetProcess inputLen
  | .getPosition => zigbeeRequestSignalProcess inputLen
  | .queryPos => zigbeeQueryEdProcess inputLen
  | .enterLowpower => pure .fail
  | .none => pure .fail

end Rs485.Zigbee
