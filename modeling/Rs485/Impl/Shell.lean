import Rs485.Framework.Call
import Rs485.Framework.Mem

/-!
# The shell (`cli_shell.c`)

The line editor of the shell and its commands. A pointer into `rx_buffer` is its
index; the accesses of the buffer are recorded (`Mem`). What a handler sends is
a parameter of its command, since the handlers of `shell_commands.c` do nothing
else to the shell.

`sent` and `dispatched` are no fields of the source: they record what was sent and
each lookup of `argv[0]`, with the arguments as they were then.
-/

namespace Rs485.Shell

open Rs485.Framework

abbrev Byte := BitVec 8

/-- `'\n'`. -/
abbrev newline : Byte := 0x0A

/-- `'\r'`. -/
abbrev carriageReturn : Byte := 0x0D

/-- `'\b'`. -/
abbrev backspace : Byte := 0x08

/-- `' '`. -/
abbrev space : Byte := 0x20

/-- `SHELL_RX_BUFFER_SIZE`. -/
abbrev shellRxBufferSize : Nat := 256

/-- `SHELL_MAX_ARGS`. -/
abbrev shellMaxArgs : Nat := 16

/-- The bytes of a string literal. -/
def text (s : String) : List Byte := s.toList.map fun c => BitVec.ofNat 8 c.toNat

/-- `SHELL_PROMPT`. -/
def shellPrompt : List Byte := text "synaptix> "

/-- `Cli_Shell_Cmd`: the name, a C string, and what the handler sends for its arguments. -/
structure CliShellCmd where
  command : List Byte
  noNul : 0 ∉ command
  handler : List (List Byte) → List Byte

/-- A pointer into `rx_buffer` and the string there. -/
structure Arg where
  ptr : Nat
  str : List Byte
deriving DecidableEq, Repr

/-- A lookup of `argv[0]`, and the command found. -/
structure Dispatch where
  argc : Nat
  argv : List Arg
  cmd : Option CliShellCmd

/-- `ShellContext_t`; `booted` says that `impl.send_char` is set. -/
structure ShellContext where
  booted : Bool
  rxSize : Nat
  rxBuffer : Mem Unit Byte
  sent : List Byte
  dispatched : List Dispatch

/-- A function of the shell. -/
abbrev ShellM := StateM ShellContext

/-- A read of `rx_buffer[i]`. -/
def rd (i : Nat) : ShellM Byte :=
  modifyGet fun s => (s.rxBuffer.data () i, { s with rxBuffer := s.rxBuffer.touch ⟨(), i⟩ })

/-- `rx_buffer[i] = c`. -/
def wr (i : Nat) (c : Byte) : ShellM Unit :=
  modify fun s => { s with rxBuffer := s.rxBuffer.store ⟨(), i⟩ c }

/-! ## Output -/

/-- `prv_echo_str`, and `impl.send_str`. -/
def prvEchoStr (str : List Byte) : ShellM Unit := modify fun s => { s with sent := s.sent ++ str }

/-- `prv_booted`. -/
def prvBooted : ShellM Bool := modifyGet fun s => (s.booted, s)

/-- `prv_send_char`. -/
def prvSendChar (c : Byte) : ShellM Unit := do
  if ← prvBooted then prvEchoStr [c] else pure ()

/-- `prv_echo`. -/
def prvEcho (c : Byte) : ShellM Unit :=
  if c = newline then do
    prvSendChar carriageReturn
    prvSendChar newline
  else if c = backspace then do
    prvSendChar backspace
    prvSendChar space
    prvSendChar backspace
  else
    prvSendChar c

/-- `prv_send_prompt`. -/
def prvSendPrompt : ShellM Unit := prvEchoStr shellPrompt

/-! ## The buffer -/

/-- `n - 1` as a `size_t`. -/
def sizePred (n : Nat) : Nat := if n = 0 then 0xFFFFFFFF else n - 1

/-- `prv_last_char`. -/
def prvLastChar : ShellM Byte := do
  let s ← get
  rd (sizePred s.rxSize)

/-- `prv_is_rx_buffer_full`. -/
def prvIsRxBufferFull (s : ShellContext) : Bool := shellRxBufferSize ≤ s.rxSize

/-- `memset( s->rx_buffer, 0, sizeof( s->rx_buffer ) )`. -/
def clearRxBuffer (m : Mem Unit Byte) : Mem Unit Byte :=
  { m.touchN ⟨(), 0⟩ shellRxBufferSize with
    data := fun _ i => if i < shellRxBufferSize then 0 else m.data () i }

/-- `prv_reset_rx_buffer`. -/
def prvResetRxBuffer : ShellM Unit :=
  modify fun s => { s with rxBuffer := clearRxBuffer s.rxBuffer, rxSize := 0 }

/-- The string at index `i`, read up to its NUL: `n` bytes at most, and then one behind the buffer. -/
def cstr : Nat → Nat → ShellM (List Byte)
  | 0, i => do
    let _ ← rd i
    return []
  | n + 1, i => do
    let c ← rd i
    if c = 0 then
      return []
    else
      let str ← cstr n (i + 1)
      return c :: str

/-- `strcmp` with the string at index `i`. -/
def strcmp : List Byte → Nat → ShellM Bool
  | [], i => do
    let c ← rd i
    return c = 0
  | x :: xs, i => do
    let c ← rd i
    if c = x then strcmp xs (i + 1) else return false

/-- `prv_find_command`. -/
def prvFindCommand (name : Nat) : List CliShellCmd → ShellM (Option CliShellCmd)
  | [] => pure none
  | cmd :: cmds => do
    if ← strcmp cmd.command name then return some cmd else prvFindCommand name cmds

/-- The loop of `prv_process`, with `n` characters to come: the pointers in `argv`. -/
def prvArgs : Nat → Nat → List Nat → Option Nat → ShellM (List Nat)
  | 0, _, argv, _ => pure argv
  | n + 1, i, argv, nextArg =>
    if argv.length < shellMaxArgs then do
      let s ← get
      let c ← rd i
      if c = space ∨ c = newline ∨ i = s.rxSize - 1 then
        wr i 0
        prvArgs n (i + 1) (argv ++ nextArg.toList) none
      else
        prvArgs n (i + 1) argv (nextArg.or (some i))
    else
      pure argv

/-- The strings that the pointers in `argv` point to. -/
def argStrings (argv : List Nat) (s : ShellContext) : List Arg :=
  argv.map fun p => ⟨p, (call (cstr (shellRxBufferSize - p) p) s).1⟩

/-- What follows the lookup: the handler is called, or the command is unknown. -/
def prvAnswer (args : List Arg) (name : Nat) : Option CliShellCmd → ShellM Unit
  | none => do
    prvEchoStr (text "Unknown command: ")
    let str ← cstr (shellRxBufferSize - name) name
    prvEchoStr str
    prvEcho newline
    prvEchoStr (text "Type 'help' to list all commands\n")
  | some cmd => prvEchoStr (cmd.handler (args.map Arg.str))

variable (gShellCommands : List CliShellCmd)

/-- `if (argc >= 1)`: the lookup of `argv[0]`, and what follows. -/
def prvDispatch : List Nat → ShellM Unit
  | [] => pure ()
  | name :: rest => do
    let args ← modifyGet fun s => (argStrings (name :: rest) s, s)
    let cmd ← prvFindCommand name gShellCommands
    modify fun s => { s with dispatched := s.dispatched ++ [⟨rest.length + 1, args, cmd⟩] }
    prvAnswer args name cmd

/-- `if (s->rx_size == SHELL_RX_BUFFER_SIZE)`. -/
def prvEchoFull (rxSize : Nat) : ShellM Unit :=
  if rxSize = shellRxBufferSize then prvEcho newline else pure ()

/-- `prv_process`, behind its test. -/
def prvProcessLine : ShellM Unit := do
  let s ← get
  let argv ← prvArgs s.rxSize 0 [] none
  prvEchoFull s.rxSize
  prvDispatch gShellCommands argv
  prvResetRxBuffer
  prvSendPrompt

/-- `prv_process`. -/
def prvProcess : ShellM Unit := do
  let s ← get
  let last ← prvLastChar
  if last ≠ newline ∧ prvIsRxBufferFull s = false then
    return
  else
    prvProcessLine gShellCommands

/-- `cli_shell_boot`. -/
def cliShellBoot : ShellM Unit := do
  prvResetRxBuffer
  prvEchoStr (newline :: shellPrompt)

/-- `cli_shell_receive_char`. -/
def cliShellReceiveChar (c : Byte) : ShellM Unit := do
  let s ← get
  if c = carriageReturn ∨ prvIsRxBufferFull s = true ∨ s.booted = false then
    return
  else if c = backspace then
    if 0 < s.rxSize then
      modify fun s => { s with rxSize := s.rxSize - 1 }
      wr (s.rxSize - 1) 0
    else
      pure ()
  else
    wr s.rxSize c
    modify fun s => { s with rxSize := s.rxSize + 1 }
    prvProcess gShellCommands

/-- The loop of `shell_receive_task`: the characters of a stream, one after the other. -/
def shellReceive : List Byte → ShellM Unit
  | [] => pure ()
  | c :: cs => do
    cliShellReceiveChar gShellCommands c
    shellReceive cs

end Rs485.Shell
