import Rs485.Impl.Zigbee.Poll

/-!
# What the parsers do

`process_spec`: the result, the fields changed and the indices read, for every
kind of request, in terms of the test that the parsers share (`Right`).
-/

namespace Rs485.Zigbee

open Rs485.Framework

section

variable (z : ZigbeeMesh)

@[simp] theorem call_rd (i : Int) : call (rd i) z = (inputData z i, { z with reads := i :: z.reads }) := rfl

@[simp] theorem call_rdBytes (i n : Nat) :
    call (rdBytes i n) z =
      ((List.range n).map fun k => z.buff (i + k),
        { z with reads := ((List.range n).map fun k => ((i + k : Nat) : Int)) ++ z.reads }) := rfl

/-- The test of the parsers: header, length byte, instruction and checksum. -/
def Right (code : Byte) (n : Nat) (z : ZigbeeMesh) : Prop :=
  inputData z 0 = 0xFA ∧ inputData z 1 = code ∧ inputData z 2 = 0x0A ∧
    inputData z (n - 1) = sumXY ((List.range (n - 1)).map z.buff)

instance (code : Byte) (n : Nat) : Decidable (Right code n z) := inferInstanceAs (Decidable (_ ∧ _))

/-- The indices that the test reads. -/
def rightReads (n : Nat) : List Int :=
  [(n : Int) - 1, 2, 1, 0] ++ (List.range (n - 1)).map fun k : Nat => (k : Int)

/-- The indices of the body of a parameter reply. -/
def bodyReads : List Int := (List.range 48).map fun k => ((readHeaderLen + k : Nat) : Int)

/-- The body of a parameter reply. -/
def body : List Byte := (List.range 48).map fun k => z.buff (readHeaderLen + k)

/-- The version in a reply to `zigbee_connect`. -/
def version : Byte :=
  (((z.buff 7).setWidth 32 <<< 8 ||| (z.buff 8).setWidth 32) / 10 : BitVec 32).setWidth 8

theorem call_replyRight (code : Byte) (n : Nat) :
    call (replyRight code n) z =
      (decide (Right code n z), { z with reads := rightReads n ++ z.reads }) := by
  simp only [replyRight, zigbeeGetXY, call_bind, call_rdBytes, call_pure, call_rd, Nat.zero_add]
  rfl

end

/-- The length byte that the parser of an event asks for, if it has one. -/
def parserCode : ZigbeeEventType → Option Byte
  | .linkModule => some 0x06
  | .readModule => some 0x31
  | .writeModule => some 0x01
  | .resetModule => some 0x06
  | .getPosition => some 0x04
  | _ => none

/-- The parser of the event accepts the first `n` bytes of the buffer. -/
def Accepts (event : ZigbeeEventType) (n : Nat) (z : ZigbeeMesh) : Prop :=
  match parserCode event with
  | some code => Right code n z
  | none => event = .queryPos

instance (event : ZigbeeEventType) (n : Nat) (z : ZigbeeMesh) : Decidable (Accepts event n z) :=
  match h : parserCode event with
  | some code => decidable_of_iff (Right code n z) (by simp [Accepts, h])
  | none => decidable_of_iff (event = .queryPos) (by simp [Accepts, h])

/-- The indices that the parser of the event reads, latest first. -/
def processReads (event : ZigbeeEventType) (n : Nat) (z : ZigbeeMesh) : List Int :=
  if parserCode event = none then []
  else if event = .readModule ∧ Accepts event n z then bodyReads ++ rightReads n
  else if event = .linkModule ∧ Accepts event n z then [8, 7] ++ rightReads n
  else rightReads n

/-- What a parser does. -/
theorem process_spec (event : ZigbeeEventType) (n : Nat) (z : ZigbeeMesh) :
    call (process event n) z =
      (if Accepts event n z then .success else .fail,
        { z with
          param := if event = .readModule ∧ Accepts event n z then readParam (body z) else z.param
          fwVersion0 := if event = .linkModule ∧ Accepts event n z then version z else z.fwVersion0
          reads := processReads event n z ++ z.reads }) := by
  cases event <;>
  simp only [process, zigbeeConnectProcess, zigbeeReadProcess, zigbeeWriteProcess, zigbeeResetProcess,
    zigbeeRequestSignalProcess, zigbeeQueryEdProcess, checkProcess, call_bind, call_replyRight, call_pure,
    call_ite, decide_eq_true_eq, Accepts, parserCode, processReads, reduceCtorEq, if_true, if_false,
    false_and, true_and, call_rd, call_rdBytes, call_modify, List.nil_append] <;>
  split <;> simp_all [bodyReads, body, version, inputData]

/-! ## After the reply was read -/

/-- The bytes that a completing poll receives. -/
def Reply.read (reply : Reply) : List Byte := reply.bytes.take zigbeeBufferSize

section

variable (reply : Reply) (z : ZigbeeMesh)

theorem length_read : reply.read.length = min reply.bytes.length zigbeeBufferSize := by
  rw [Reply.read, List.length_take, Nat.min_comm]

@[simp] theorem pollRead_buffLen : (pollRead reply z).buffLen = reply.read.length :=
  (length_read reply).symm

theorem pollRead_buff {i : Nat} (h : i < reply.read.length) :
    (pollRead reply z).buff i = reply.read.getD i 0 := by
  rw [length_read] at h
  simp only [pollRead, if_pos h, Reply.read, List.getD_eq_getElem?_getD, List.getElem?_take]
  rw [if_pos (Nat.lt_of_lt_of_le h (Nat.min_le_right _ _))]

/-- The first bytes of the buffer are those received. -/
theorem map_buff {n : Nat} (h : n ≤ reply.read.length) :
    (List.range n).map (pollRead reply z).buff = reply.read.take n := by
  refine List.ext_getElem (by simp [h]) fun i hi _ => ?_
  simp only [List.length_map, List.length_range] at hi
  rw [List.getElem_map, List.getElem_range, pollRead_buff _ _ (by omega), List.getElem_take,
    List.getD_eq_getElem?_getD, List.getElem?_eq_getElem (by omega), Option.getD_some]

theorem received_pollRead : received (pollRead reply z) = reply.read := by
  rw [received, pollRead_buffLen, map_buff _ _ (Nat.le_refl _), List.take_length]

end

/-- The test of the parsers, on the bytes received. -/
def ReplyRight (code : Byte) (bytes : List Byte) : Prop :=
  bytes.getD 0 0 = 0xFA ∧ bytes.getD 1 0 = code ∧ bytes.getD 2 0 = 0x0A ∧
    bytes.getD (bytes.length - 1) 0 = sumXY bytes.dropLast

instance (code : Byte) (bytes : List Byte) : Decidable (ReplyRight code bytes) :=
  inferInstanceAs (Decidable (_ ∧ _))

theorem length_received (z : ZigbeeMesh) : (received z).length = z.buffLen := by
  rw [received, List.length_map, List.length_range]

/-- With three bytes or more the parsers see only what was received. -/
theorem right_received (code : Byte) {z : ZigbeeMesh} (h : 3 ≤ z.buffLen) :
    Right code z.buffLen z ↔ ReplyRight code (received z) := by
  have hbyte : ∀ i : Nat, i < z.buffLen → inputData z (i : Int) = (received z).getD i 0 := fun i hi => by
    rw [received, List.getD_eq_getElem?_getD, List.getElem?_map, List.getElem?_range hi, Option.map_some,
      Option.getD_some, inputData, if_neg (by omega), Int.toNat_natCast]
  have hlast : ((z.buffLen : Int) - 1) = ((z.buffLen - 1 : Nat) : Int) := by omega
  have hfront : (List.range (z.buffLen - 1)).map z.buff = (received z).dropLast := by
    rw [List.dropLast_eq_take, length_received, received, ← List.map_take, List.take_range,
      Nat.min_eq_left (Nat.sub_le _ _)]
  rw [Right, ReplyRight, hlast, hbyte _ (by omega), hfront, length_received]
  exact Iff.and (by rw [← hbyte 0 (by omega)]; rfl) (Iff.and (by rw [← hbyte 1 (by omega)]; rfl)
    (Iff.and (by rw [← hbyte 2 (by omega)]; rfl) Iff.rfl))

theorem right_pollRead {code : Byte} {reply : Reply} (z : ZigbeeMesh) (h : 3 ≤ reply.read.length) :
    Right code reply.read.length (pollRead reply z) ↔ ReplyRight code reply.read := by
  have hr := right_received code (z := pollRead reply z) (by rw [pollRead_buffLen]; exact h)
  rwa [pollRead_buffLen, received_pollRead] at hr

/-! ## The completion -/

section

variable (reply : Reply) (z : ZigbeeMesh)

/-- The mesh after the parser. -/
def parsed : ZigbeeMesh :=
  let n := reply.read.length
  let w := pollRead reply z
  { w with
    param := if z.event.event = .readModule ∧ Accepts z.event.event n w then readParam (body w) else z.param
    fwVersion0 := if z.event.event = .linkModule ∧ Accepts z.event.event n w then version w else z.fwVersion0
    reads := processReads z.event.event n w ++ z.reads }

theorem pollProcess_pollRead :
    pollProcess (pollRead reply z) =
      (if Accepts z.event.event reply.read.length (pollRead reply z) then .success else .fail,
        parsed reply z) := by
  have hn : reply.read.length % 0x10000 = reply.read.length := by
    refine Nat.mod_eq_of_lt (Nat.lt_of_le_of_lt ?_ (by decide : zigbeeBufferSize < 0x10000))
    rw [length_read]
    exact Nat.min_le_right _ _
  rw [pollProcess, pollRead_buffLen, hn, process_spec]
  rfl

theorem pollComplete_eq :
    pollComplete reply z =
      ((if reply.read.length = 0 then callback .timeout z else none).toList ++
        (if Accepts z.event.event reply.read.length (pollRead reply z) then callback .success z
          else none).toList,
        pollEnd (parsed reply z)) := by
  have htimeout : timeoutCallback (pollRead reply z) =
      if reply.read.length = 0 then callback .timeout z else none := by
    rw [timeoutCallback, pollRead_buffLen]
    rfl
  have hresult : resultCallback
      (if Accepts z.event.event reply.read.length (pollRead reply z) then .success else .fail)
        (parsed reply z) =
      if Accepts z.event.event reply.read.length (pollRead reply z) then callback .success z else none := by
    split <;> rfl
  rw [pollComplete, htimeout, pollProcess_pollRead, hresult]

end

end Rs485.Zigbee
