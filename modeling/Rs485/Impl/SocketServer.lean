import Rs485.Framework.Call
import Rs485.Framework.Lts

/-!
# The accept loop of the socket server (`socketserver.c`)

One pass of the loop of `socket_server_task`, for any outcomes of the three functions it calls.
The local record `client` is not initialised: it holds whatever the pass finds there,
up to `client_fd`, which `lwip_accept` sets.

The lists `connections` and `blocks` are no fields of the source: they record the
descriptors accepted and the blocks allocated, latest first, since a number or an address
may come back once it is free. A call about one of them is about the latest with that
number or address.
-/

namespace Rs485.SocketServer

open Rs485.Framework

/-- A pointer, or the handle of a task (0 is NULL). -/
abbrev Pointer := BitVec 32

/-- `SocketClient_t`, as far as the loop uses it. -/
structure SocketClient where
  clientFd : Int
  taskHandle : Pointer
  arg : Pointer

/-- A descriptor that was accepted: how often it was closed, and whether a task that was
created has it. -/
structure Connection where
  fd : Int
  closes : Nat
  handed : Bool
deriving DecidableEq

/-- A block that was allocated: how often it was freed, and whether a task that was created has it. -/
structure Block where
  ptr : Pointer
  frees : Nat
  handed : Bool
deriving DecidableEq

/-- `SocketServer`, as far as the loop uses it (whether `client_handler` is set), and the record. -/
structure Server where
  clientHandler : Bool
  arg : Pointer
  numClients : BitVec 16
  connections : List Connection
  blocks : List Block

/-- What a pass meets: what `lwip_accept` returns, the record `client` before it, what
`pvPortMalloc` returns, and the handle of the task that `xTaskCreate` creates, if it does. -/
structure Outcome where
  lwipAccept : Int
  client : SocketClient
  pvPortMalloc : Pointer
  xTaskCreate : Option { handle : Pointer // handle ≠ 0 }

/-- A function of the loop. -/
abbrev ServerM := StateM Server

/-- The list with its first element that satisfies `p` changed by `f`. -/
def onFirst {α : Type} (p : α → Bool) (f : α → α) : List α → List α
  | [] => []
  | x :: xs => if p x then f x :: xs else x :: onFirst p f xs

/-- `lwip_accept`. -/
def lwipAccept (fd : Int) : ServerM Int :=
  modifyGet fun s =>
    (fd, if fd < 0 then s else { s with connections := ⟨fd, 0, false⟩ :: s.connections })

/-- `lwip_close`. -/
def lwipClose (fd : Int) : ServerM Unit :=
  modify fun s =>
    { s with connections := onFirst (·.fd = fd) (fun c => { c with closes := c.closes + 1 }) s.connections }

/-- `pvPortMalloc`. -/
def pvPortMalloc (ptr : Pointer) : ServerM Pointer :=
  modifyGet fun s => (ptr, if ptr = 0 then s else { s with blocks := ⟨ptr, 0, false⟩ :: s.blocks })

/-- `vPortFree`. -/
def vPortFree (ptr : Pointer) : ServerM Unit :=
  modify fun s =>
    { s with blocks := onFirst (·.ptr = ptr) (fun b => { b with frees := b.frees + 1 }) s.blocks }

/-- `xTaskCreate` for the block `ptr` with the record `client` in it: the record behind it. Where no
task is created, its handle stays as it was. -/
def xTaskCreate (created : Option { handle : Pointer // handle ≠ 0 }) (ptr : Pointer)
    (client : SocketClient) : ServerM SocketClient :=
  match created with
  | none => pure client
  | some handle =>
    modifyGet fun s =>
      ({ client with taskHandle := handle },
        { s with
          connections := onFirst (·.fd = client.clientFd) (fun c => { c with handed := true }) s.connections
          blocks := onFirst (·.ptr = ptr) (fun b => { b with handed := true }) s.blocks })

/-- `server->num_clients += n`. -/
def addClients (n : BitVec 16) : ServerM Unit := modify fun s => { s with numClients := s.numClients + n }

/-- One pass of the loop of `socket_server_task`. -/
def acceptPass (o : Outcome) : ServerM Unit := do
  let clientFd ← lwipAccept o.lwipAccept
  let client := { o.client with clientFd := clientFd }
  if client.clientFd < 0 then
    pure ()
  else
    addClients 1
    let server ← get
    if server.clientHandler = true then
      let clientPtr ← pvPortMalloc o.pvPortMalloc
      if clientPtr = 0 then
        lwipClose client.clientFd
        addClients (-1)
      else
        let copied := { client with arg := server.arg }
        let copied ← xTaskCreate o.xTaskCreate clientPtr copied
        if copied.taskHandle = 0 then
          lwipClose copied.clientFd
          vPortFree clientPtr
          addClients (-1)
        else
          pure ()
    else
      lwipClose client.clientFd
      addClients (-1)

/-- `socket_server_init`, and the passes one after the other. -/
def acceptLoop : Lts Server Outcome where
  init s := s.numClients = 0 ∧ s.connections = [] ∧ s.blocks = []
  next s o := some (call (acceptPass o) s).2

end Rs485.SocketServer
