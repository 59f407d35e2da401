import Rs485.Framework.Mem

/-!
# The DNS server of the USB network (`dnserver.c`)

The packet received and the name in the static `query` are objects of a memory, so
that what is read and written is recorded; the counters of `parse_next_query` are
what they are in the source, and the pointer into the packet is its offset.
-/

namespace Rs485.Dns

open Rs485.Framework

abbrev Byte := BitVec 8

/-- `p->payload`, and `query.name`. -/
inductive DnsObj
  | payload | name
deriving DecidableEq, Repr

/-- `DNS_MAX_HOST_NAME_LEN`. -/
abbrev dnsMaxHostNameLen : Nat := 128

/-- `sizeof(dns_header_t)`. -/
abbrev sizeofDnsHeader : Nat := 12

/-- `'.'`. -/
abbrev dot : Byte := 0x2E

/-- Where the loop of `parse_next_query` ends: `ptr`, `size` and `len`. -/
structure ParseEnd where
  ptr : Nat
  size : Nat
  len : Nat
deriving DecidableEq, Repr

/-- The loop of `parse_next_query`, each turn of which takes an octet at least. -/
def parseLoop : Nat → Nat → Nat → Nat → Nat → Mem DnsObj Byte → Except Int ParseEnd × Mem DnsObj Byte
  | 0, _, _, _, _, m => (.error (-1), m)
  | fuel + 1, ptr, size, len, labels, m =>
    if size = 0 then (.error (-1), m)
    else
      let lableLen := (m.data .payload ptr).toNat
      let m := m.touch ⟨.payload, ptr⟩
      let ptr := ptr + 1
      let size := size - 1
      if lableLen = 0 then (.ok ⟨ptr, size, len⟩, m)
      else if labels > 0 ∧ len = dnsMaxHostNameLen then (.error (-2), m)
      else
        let r := if labels > 0 then (m.store ⟨.name, len⟩ dot, len + 1) else (m, len)
        let m := r.1
        let len := r.2
        if lableLen > size then (.error (-1), m)
        else if len + lableLen ≥ dnsMaxHostNameLen then (.error (-2), m)
        else
          parseLoop fuel (ptr + lableLen) (size - lableLen) (len + lableLen) (labels + 1)
            (m.copy ⟨.name, len⟩ ⟨.payload, ptr⟩ lableLen)

/-- What `parse_next_query` returns and leaves in `query` besides the name. -/
structure Query where
  consumed : Nat
  type : BitVec 16
  cls : BitVec 16
deriving DecidableEq, Repr

/-- `get_uint16`, as the processor reads it. -/
def getUint16 (m : Mem DnsObj Byte) (off : Nat) : BitVec 16 := m.data .payload (off + 1) ++ m.data .payload off

/-- `parse_next_query` of the `size` octets from `data` on. -/
def parseNextQuery (data size : Nat) (m : Mem DnsObj Byte) : Except Int Query × Mem DnsObj Byte :=
  match parseLoop size data size 0 0 m with
  | (.error e, m) => (.error e, m)
  | (.ok ⟨ptr, size, len⟩, m) =>
    if size < 4 then (.error (-1), m)
    else
      let m := m.store ⟨.name, len⟩ 0
      let type := getUint16 m ptr
      let cls := getUint16 m (ptr + 2)
      (.ok ⟨ptr + 4 - data, type, cls⟩, m.touchN ⟨.payload, ptr⟩ 4)

/-- `query_proc`, of the text of a name. -/
abbrev QueryProc := List Byte → Option (BitVec 32)

/-- The string at `query.name`, if it ends within `n` octets. -/
def cString (m : Mem DnsObj Byte) (n : Nat) : List Byte := (m.slice ⟨.name, 0⟩ n).takeWhile (· ≠ 0)

/-- `dns_answer_t` for the address `addr`, which is the word that its octets in memory are. -/
def answer (addr : BitVec 32) : List Byte :=
  [0xC0, 0x0C, 0, 1, 0, 1, 0, 0, 0, 32, 0, 4,
    addr.setWidth 8, (addr >>> 8).setWidth 8, (addr >>> 16).setWidth 8, (addr >>> 24).setWidth 8]

/-- The reply: the query with the flag QR and the count of answers set, and the answer. -/
def reply (payload : List Byte) (len : Nat) (addr : BitVec 32) : List Byte :=
  (((payload.take len).modify 2 (· ||| 0x80)).set 6 0).set 7 1 ++ answer addr

/-- The packet received, and what the static `query` holds. -/
def received (payload : List Byte) (name : Nat → Byte) : Mem DnsObj Byte :=
  ⟨fun o i => match o with
    | .payload => payload.getD i 0
    | .name => name i, []⟩

/-- `udp_recv_proc` after `parse_next_query`. -/
def respond (queryProc : QueryProc) (alloc : Bool) (payload : List Byte) :
    Except Int Query × Mem DnsObj Byte → Option (List Byte) × Mem DnsObj Byte
  | (.error _, m) => (none, m)
  | (.ok q, m) =>
    match queryProc (cString m dnsMaxHostNameLen) with
    | none => (none, m)
    | some addr =>
      let len := q.consumed + sizeofDnsHeader
      if alloc then (some (reply payload len addr), m.touchN ⟨.payload, 0⟩ len) else (none, m)

/-- `udp_recv_proc` for the octets `payload`; `name` is what the static `query` holds, and `alloc` is
whether `pbuf_alloc` succeeds. -/
def udpRecvProc (queryProc : QueryProc) (alloc : Bool) (payload : List Byte) (name : Nat → Byte) :
    Option (List Byte) × Mem DnsObj Byte :=
  let m := received payload name
  if payload.length ≤ sizeofDnsHeader then (none, m)
  else if m.data .payload 2 &&& 0x80 ≠ 0 then (none, m.touch ⟨.payload, 2⟩)
  else
    let m := m.touch ⟨.payload, 2⟩
    if m.data .payload 4 ≠ 0 ∨ m.data .payload 5 ≠ 1 then (none, m.touchN ⟨.payload, 4⟩ 2)
    else
      respond queryProc alloc payload
        (parseNextQuery sizeofDnsHeader (payload.length - sizeofDnsHeader) (m.touchN ⟨.payload, 4⟩ 2))

/-- `"tiny.usb"`. -/
def tinyUsb : List Byte := [0x74, 0x69, 0x6E, 0x79, 0x2E, 0x75, 0x73, 0x62]

/-- `dns_query_proc` of `usb_netif.c`. -/
def dnsQueryProc (ipaddr : BitVec 32) : QueryProc := fun name => if name = tinyUsb then some ipaddr else none

end Rs485.Dns
