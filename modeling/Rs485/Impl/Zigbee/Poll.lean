import Rs485.Framework.Lts
import Rs485.Impl.Zigbee.Process

/-!
# Requests and `zigbee_poll` (`zigbee.c`)

A request is put into `event_queue`; `zigbee_poll` takes the next one, sends its
frame, and when its time is over reads what the module has answered and calls
back. Its parts between the two callback sites are functions of their own, since
an application may make requests from a callback: in the system `zigbee` a
poll is these parts one after the other.

What the driver has at a poll is its `Reply`. `accepted`, `started`, `timedOut`
and `verdicts` are no fields of the source: they record the requests accepted (with the
parameters at that time), those taken from the queue (with the frame sent), those
whose time was over, and for each of these, once it is finished, the bytes
received and the results its callback was called with.
-/

namespace Rs485.Zigbee

open Rs485.Framework Rs485.Utils

/-- What the driver has received: `available` gives its length. -/
structure Reply where
  bytes : List Byte
  length_lt : bytes.length < 0x100000000

/-- `sizeof(ZigbeeEvent_t)`. -/
abbrev sizeofZigbeeEvent : Nat := 20

/-- The elements of `event_list`. -/
abbrev eventListLen : Nat := 10

/-- `sizeof(zigbee->event_list)`. -/
abbrev sizeofEventList : Nat := eventListLen * sizeofZigbeeEvent

/-- A parameter block of zeros. -/
def ZigbeeParameter.zero : ZigbeeParameter := readParam []

/-- An event of zeros. -/
def ZigbeeEvent.zero : ZigbeeEvent := ⟨0, 0, .none, 0, 0⟩

/-- `zigbee_init`. -/
def zigbeeInit (z : ZigbeeMesh) : ZigbeeMesh :=
  { z with
    param := .zero
    event := .zero
    eventTmp := .zero
    timeReset := 0
    eventQueue := cqueueInitStatic z.eventQueue.buff sizeofEventList }

/-! ## Requests -/

/-- The body of the request functions: whether the request was accepted, and the mesh. -/
def request (event : ZigbeeEventType) (timeout : BitVec 32) (cb arg : Pointer) (z : ZigbeeMesh) :
    Bool × ZigbeeMesh :=
  let eventTmp : ZigbeeEvent := { event := event, timeout := timeout, tick := 0, cb := cb, arg := arg }
  let r := cqueueSend z.eventQueue eventTmp
  (r.1, { z with eventTmp := eventTmp, eventQueue := r.2 })

/-- `zigbee_connect`. -/
def zigbeeConnect (cb arg : Pointer) (z : ZigbeeMesh) : Bool × ZigbeeMesh :=
  request .linkModule 300 cb arg z

/-- `zigbee_reset_module`. -/
def zigbeeResetModule (cb arg : Pointer) (z : ZigbeeMesh) : Bool × ZigbeeMesh :=
  request .resetModule 300 cb arg z

/-- `zigbee_read_module`. -/
def zigbeeReadModule (cb arg : Pointer) (z : ZigbeeMesh) : Bool × ZigbeeMesh :=
  request .readModule 1000 cb arg z

/-- `zigbee_write_module`. The frame it makes first is only logged. -/
def zigbeeWriteModule (cb arg : Pointer) (z : ZigbeeMesh) : Bool × ZigbeeMesh :=
  request .writeModule 1000 cb arg z

/-- `zigbee_request_signal`. -/
def zigbeeRequestSignal (cb arg : Pointer) (z : ZigbeeMesh) : Bool × ZigbeeMesh :=
  request .getPosition 300 cb arg z

/-- `zigbee_query_ed_pos`: only a coordinator asks. -/
def zigbeeQueryEdPos (cb arg : Pointer) (z : ZigbeeMesh) : Bool × ZigbeeMesh :=
  if z.param.pointType ≠ 1 then (false, z) else request .queryPos 2000 cb arg z

/-- The request functions. -/
inductive Request
  | connect | resetModule | readModule | writeModule | requestSignal | queryEdPos
deriving DecidableEq, Repr

/-- A call of one of them. -/
def Request.call : Request → Pointer → Pointer → ZigbeeMesh → Bool × ZigbeeMesh
  | .connect => zigbeeConnect
  | .resetModule => zigbeeResetModule
  | .readModule => zigbeeReadModule
  | .writeModule => zigbeeWriteModule
  | .requestSignal => zigbeeRequestSignal
  | .queryEdPos => zigbeeQueryEdPos

/-! ## The parts of `zigbee_poll` -/

/-- Nothing to do: a module that stays silent for ten seconds is restarted. -/
def pollIdle (timestamp : BitVec 32) (reply : Reply) (z : ZigbeeMesh) : ZigbeeMesh :=
  let z := if reply.bytes.length > 0 then { z with timeReset := 0 } else z
  let z := { z with timeReset := z.timeReset + timestamp }
  if 10000 ≤ z.timeReset then { z with timeReset := 0 } else z

/-- The next request is taken from the queue, if there is one. -/
def pollTake (z : ZigbeeMesh) : ZigbeeMesh :=
  if 0 < z.eventQueue.count then
    let r := cqueueReceive z.eventQueue
    { z with eventQueue := r.2, event := r.1.getD z.event }
  else
    z

/-- The beginning of a poll while no request is in progress: the next one is taken and its frame is
sent; the second result is the two, if there is one. -/
def pollStart (timestamp : BitVec 32) (reply : Reply) (z : ZigbeeMesh) :
    ZigbeeMesh × Option (ZigbeeEvent × List Byte) :=
  if z.event.event = .none then
    let z := pollTake z
    match eventFrame z.param z.event.event with
    | some frame => (z, some (z.event, frame))
    | none => (pollIdle timestamp reply z, none)
  else
    (z, none)

/-- Its time runs. -/
def pollTick (timestamp : BitVec 32) (z : ZigbeeMesh) : ZigbeeMesh :=
  if z.event.tick < z.event.timeout ∧ z.event.event ≠ .none then
    { z with event.tick := z.event.tick + timestamp }
  else
    z

/-- Its time is over. -/
def pollDue (z : ZigbeeMesh) : Bool := z.event.timeout ≤ z.event.tick ∧ z.event.event ≠ .none

/-- The reply is read. -/
def pollRead (reply : Reply) (z : ZigbeeMesh) : ZigbeeMesh :=
  let buffLen := min reply.bytes.length zigbeeBufferSize
  { z with
    event.tick := 0
    buffLen := buffLen
    buff := fun i => if i < buffLen then reply.bytes.getD i 0 else z.buff i }

/-- The reply is parsed (`buff_len` is passed as a `uint16_t`). -/
def pollProcess (z : ZigbeeMesh) : ZigbeeRes × ZigbeeMesh :=
  call (process z.event.event (z.buffLen % 0x10000)) z

/-- The request is finished. -/
def pollEnd (z : ZigbeeMesh) : ZigbeeMesh :=
  { z with buffLen := 0, event.tick := 0, event.event := .none }

/-- A call of the callback. -/
structure Callback where
  cb : Pointer
  res : ZigbeeRes
  arg : Pointer
deriving DecidableEq, Repr

/-- The callback of the request in progress, unless it is NULL. -/
def callback (res : ZigbeeRes) (z : ZigbeeMesh) : Option Callback :=
  if z.event.cb ≠ 0 then some ⟨z.event.cb, res, z.event.arg⟩ else none

/-- The first callback site. -/
def timeoutCallback (z : ZigbeeMesh) : Option Callback :=
  if z.buffLen = 0 then callback .timeout z else none

/-- The second callback site. -/
def resultCallback (res : ZigbeeRes) (z : ZigbeeMesh) : Option Callback :=
  if res ≠ .fail then callback res z else none

/-- `zigbee_poll` up to the test of the timeout. -/
def pollBegin (timestamp : BitVec 32) (reply : Reply) (z : ZigbeeMesh) :
    ZigbeeMesh × Option (ZigbeeEvent × List Byte) :=
  let r := pollStart timestamp reply z
  (pollTick timestamp r.1, r.2)

/-- `zigbee_poll` from the reading of the reply on. -/
def pollComplete (reply : Reply) (z : ZigbeeMesh) : List Callback × ZigbeeMesh :=
  let z := pollRead reply z
  let r := pollProcess z
  ((timeoutCallback z).toList ++ (resultCallback r.1 r.2).toList, pollEnd r.2)

/-- `zigbee_poll`, with callbacks that do nothing: the callbacks made, and the mesh. -/
def zigbeePoll (timestamp : BitVec 32) (reply : Reply) (z : ZigbeeMesh) :
    List Callback × ZigbeeMesh :=
  let z := (pollBegin timestamp reply z).1
  if pollDue z then pollComplete reply z else ([], z)

/-! ## Runs -/

/-- Where the application and `zigbee_poll` are. -/
inductive Pc
  /-- In no poll. -/
  | idle
  /-- In the callback of the first site. -/
  | timeoutCb
  /-- Before the parser. -/
  | process
  /-- In the callback of the second site. -/
  | resultCb
deriving DecidableEq, Repr

/-- What became of a request: the bytes received for it and the results its callback got. -/
structure Verdict where
  event : ZigbeeEvent
  received : List Byte
  results : List ZigbeeRes
deriving DecidableEq, Repr

/-- The mesh and the poll in progress. -/
structure Module where
  mesh : ZigbeeMesh
  pc : Pc
  current : List ZigbeeRes
  accepted : List (ZigbeeEvent × ZigbeeParameter)
  started : List (ZigbeeEvent × List Byte)
  timedOut : List ZigbeeEvent
  verdicts : List Verdict

/-- What happens: the application, in a callback or outside a poll, makes a request or sets
parameters; it polls; a callback returns; or the poll goes on to the parser. -/
inductive ZigbeeAct
  | request (f : Request) (cb arg : Pointer)
  | setParam (param : ZigbeeParameter)
  | poll (timestamp : BitVec 32) (reply : Reply)
  | process
  | ret

/-- A call of a request function. -/
def Module.request (f : Request) (cb arg : Pointer) (s : Module) : Module :=
  let r := f.call cb arg s.mesh
  { s with
    mesh := r.2
    accepted := if r.1 then s.accepted ++ [(r.2.eventTmp, r.2.param)] else s.accepted }

/-- A poll up to its first callback, if it has one. -/
def Module.poll (timestamp : BitVec 32) (reply : Reply) (s : Module) : Module :=
  let r := pollBegin timestamp reply s.mesh
  let s := { s with mesh := r.1, started := s.started ++ r.2.toList }
  if pollDue r.1 then
    let z := pollRead reply r.1
    { s with
      mesh := z
      pc := if (timeoutCallback z).isSome then .timeoutCb else .process
      current := ((timeoutCallback z).map Callback.res).toList
      timedOut := s.timedOut ++ [z.event] }
  else
    s

/-- The bytes received by the poll in progress. -/
def received (z : ZigbeeMesh) : List Byte := (List.range z.buffLen).map z.buff

/-- The request in progress is finished. -/
def Module.finish (s : Module) : Module :=
  { s with
    mesh := pollEnd s.mesh
    pc := .idle
    current := []
    verdicts := s.verdicts ++ [⟨s.mesh.event, received s.mesh, s.current⟩] }

/-- The parser, up to the second callback, if it is made. -/
def Module.process (s : Module) : Module :=
  let r := pollProcess s.mesh
  let s := { s with mesh := r.2, current := s.current ++ ((resultCallback r.1 r.2).map Callback.res).toList }
  if (resultCallback r.1 r.2).isSome then { s with pc := .resultCb } else s.finish

/-- The module with the application that uses it. -/
def zigbee : Lts Module ZigbeeAct where
  init s := ∃ z : ZigbeeMesh, z.eventQueue.buff.log = [] ∧ s = ⟨zigbeeInit z, .idle, [], [], [], [], []⟩
  next s
    | .request f cb arg => if s.pc = .process then none else some (s.request f cb arg)
    | .setParam param =>
      if s.pc = .process then none else some { s with mesh.param := param }
    | .poll timestamp reply => if s.pc = .idle then some (s.poll timestamp reply) else none
    | .process => if s.pc = .process then some s.process else none
    | .ret =>
      match s.pc with
      | .timeoutCb => some { s with pc := .process }
      | .resultCb => some s.finish
      | _ => none

end Rs485.Zigbee
