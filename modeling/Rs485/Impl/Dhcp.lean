import Rs485.Framework.Lts
import Rs485.Framework.Tlv
import Rs485.Spec.Leases

/-!
# The DHCP server of the USB network (`dhserver.c`)

The static packet `dhcp_data` is its octets: a packet that is shorter leaves the rest
of the one before, and a reply is made in place. A pointer into the table of entries
is an index, and an address is the word that its four octets in memory are. The
result of `pbuf_alloc` is a parameter of a step, and so are the octets received.
-/

namespace Rs485.Dhcp

open Rs485.Framework Rs485.Spec.Leases

abbrev Byte := BitVec 8

/-- `ip4_addr_t`: the word of the four octets, the first one lowest. -/
abbrev Ip4 := BitVec 32

/-- A hardware address of six octets. -/
abbrev Mac := Vector Byte 6

/-- `dhcp_entry_t`. -/
structure Entry where
  mac : Mac
  addr : Ip4
  lease : BitVec 32
deriving DecidableEq, Repr

/-- `dhcp_config_t`, without the table of entries; the port only names the socket. -/
structure Config where
  router : Ip4
  dns : Ip4
  domain : Option (List Byte)
deriving DecidableEq, Repr

/-- What the server reads of the network interface. -/
structure Netif where
  ipAddr : Ip4
  netmask : Ip4
deriving DecidableEq, Repr

/-- `config->entries` and `dhcp_data`. -/
structure Server where
  entries : List Entry
  dhcpData : Nat → Byte

/-! ## The fields of `DHCP_TYPE` -/

/-- `sizeof(dhcp_data)` and `sizeof(dhcp_data.dp_options)`. -/
abbrev sizeofDhcpData : Nat := 516
abbrev sizeofDpOptions : Nat := 275

abbrev dpOp : Nat := 0
abbrev dpSecs : Nat := 8
abbrev dpFlags : Nat := 10
abbrev dpCiaddr : Nat := 12
abbrev dpYiaddr : Nat := 16
abbrev dpGiaddr : Nat := 24
abbrev dpChaddr : Nat := 28
abbrev dpMagic : Nat := 236
abbrev dpOptions : Nat := 240

abbrev dhcpDiscover : Byte := 1
abbrev dhcpOffer : Byte := 2
abbrev dhcpRequest : Byte := 3
abbrev dhcpAck : Byte := 5

abbrev optSubnetMask : Byte := 1
abbrev optRouter : Byte := 3
abbrev optDnsServer : Byte := 6
abbrev optDnsDomain : Byte := 15
abbrev optIpAddress : Byte := 50
abbrev optLeaseTime : Byte := 51
abbrev optMessageType : Byte := 53
abbrev optServerId : Byte := 54
abbrev optEnd : Byte := 255

/-- `bs` is copied to `off`. -/
def put (d : Nat → Byte) (off : Nat) (bs : List Byte) : Nat → Byte :=
  fun i => if off ≤ i ∧ i < off + bs.length then bs.getD (i - off) 0 else d i

/-- `n` octets from `off` on. -/
def octets (d : Nat → Byte) (off n : Nat) : List Byte := (List.range n).map fun i => d (off + i)

/-- `get_ip`. -/
def getIp (d : Nat → Byte) (off : Nat) : Ip4 := d (off + 3) ++ d (off + 2) ++ d (off + 1) ++ d off

/-- The octets that `set_ip` copies. -/
def ipBytes (a : Ip4) : List Byte :=
  [a.setWidth 8, (a >>> 8).setWidth 8, (a >>> 16).setWidth 8, (a >>> 24).setWidth 8]

/-- `dp_chaddr`, its first six octets. -/
def chaddr (d : Nat → Byte) : Mac := Vector.ofFn fun i => d (dpChaddr + i)

/-- Where `is_vacant` holds, and what `free_entry` writes. -/
def noMac : Mac := Vector.replicate 6 0

/-! ## The table of entries -/

/-- `entry_by_ip`. -/
def entryByIp (entries : List Entry) (ip : Ip4) : Option Nat := entries.findIdx? fun e => e.addr = ip

/-- `entry_by_mac`. -/
def entryByMac (entries : List Entry) (mac : Mac) : Option Nat := entries.findIdx? fun e => e.mac = mac

/-- `is_vacant`. -/
def isVacant (e : Entry) : Bool := e.mac = noMac

/-- `vacant_address`. -/
def vacantAddress (entries : List Entry) : Option Nat := entries.findIdx? isVacant

/-- `memcpy(entry->mac, mac, 6)`; with no octets but zeros it is `free_entry`. -/
def setMac (entries : List Entry) (i : Nat) (mac : Mac) : List Entry :=
  entries.modify i fun e => { e with mac := mac }

/-- `free_entry`. -/
def freeEntry (entries : List Entry) (i : Nat) : List Entry := setMac entries i noMac

/-! ## Options -/

/-- The loop of `find_dhcp_option`, which takes two octets at least for each turn. -/
def findLoop (attrs : Nat → Byte) (size : Nat) (attr : Byte) : Nat → Nat → Option Nat
  | 0, _ => none
  | fuel + 1, i =>
    if i + 1 < size then
      let next := i + (attrs (i + 1)).toNat + 2
      if next > size then none
      else if attrs i = attr then some i
      else findLoop attrs size attr fuel next
    else none

/-- `find_dhcp_option`. -/
def findDhcpOption (attrs : Nat → Byte) (size : Nat) (attr : Byte) : Option Nat :=
  findLoop attrs size attr size 0

/-- What `fill_options` writes. -/
def fillOptions (msgType : Byte) (domain : Option (List Byte)) (dns : Ip4) (leaseTime : BitVec 32)
    (serverid router subnet : Ip4) : List Byte :=
  Tlv.encodeOpt optMessageType [msgType] ++
  Tlv.encodeOpt optServerId (ipBytes serverid) ++
  Tlv.encodeOpt optLeaseTime [(leaseTime >>> 24).setWidth 8, (leaseTime >>> 16).setWidth 8,
    (leaseTime >>> 8).setWidth 8, leaseTime.setWidth 8] ++
  Tlv.encodeOpt optSubnetMask (ipBytes subnet) ++
  (if router ≠ 0 then Tlv.encodeOpt optRouter (ipBytes router) else []) ++
  (match domain with
    | some domain => Tlv.encodeOpt optDnsDomain domain
    | none => []) ++
  (if dns ≠ 0 then Tlv.encodeOpt optDnsServer (ipBytes dns) else []) ++
  [optEnd]

/-! ## The server -/

/-- `dp_flags & htons(0x8000)`. -/
def broadcastFlag (d : Nat → Byte) : Bool := d dpFlags &&& 0x80 ≠ 0

/-- `get_dhcp_destination`; where the client could be addressed by its hardware address, the source
falls back to the broadcast. -/
def getDhcpDestination (netif : Netif) (d : Nat → Byte) (yiaddr : Ip4) (isNak : Bool) : Ip4 :=
  let broadcast := netif.ipAddr ||| ~~~netif.netmask
  if getIp d dpGiaddr ≠ 0 then getIp d dpGiaddr
  else if isNak then broadcast
  else if getIp d dpCiaddr ≠ 0 then getIp d dpCiaddr
  else if broadcastFlag d then broadcast
  else if yiaddr ≠ 0 then broadcast
  else broadcast

/-- A datagram that the server sends. -/
structure Reply where
  data : Nat → Byte
  dest : Ip4

/-- The packet that `dhcp_data` holds once `payload` is copied to it. -/
def receive (payload : List Byte) (d : Nat → Byte) : Nat → Byte := put d 0 (payload.take sizeofDhcpData)

/-- `ptr[2]` of the option `DHCP_MESSAGETYPE`. -/
def messageType (d : Nat → Byte) : Option Byte :=
  (findDhcpOption (fun i => d (dpOptions + i)) sizeofDpOptions optMessageType).map fun p =>
    d (dpOptions + p + 2)

/-- The address of the option `DHCP_IPADDRESS`, if it has four octets. -/
def requestedIp (d : Nat → Byte) : Option Ip4 :=
  match findDhcpOption (fun i => d (dpOptions + i)) sizeofDpOptions optIpAddress with
  | some p => if d (dpOptions + p + 1) = 4 then some (getIp d (dpOptions + p + 2)) else none
  | none => none

/-- `dhcp_data` as a reply of the type `msgType` for the entry `e`. -/
def fillReply (cfg : Config) (netif : Netif) (msgType : Byte) (yiaddr : Ip4) (lease : BitVec 32)
    (d : Nat → Byte) : Nat → Byte :=
  let d := put d dpOp [2]
  let d := put d dpSecs [0, 0]
  let d := put d dpFlags [0, 0]
  let d := put d dpYiaddr (ipBytes yiaddr)
  let d := put d dpMagic [0x63, 0x82, 0x53, 0x63]
  let d := put d dpOptions (List.replicate sizeofDpOptions 0)
  put d dpOptions (fillOptions msgType cfg.domain cfg.dns lease netif.ipAddr cfg.router netif.netmask)

/-- The entry of the hardware address, or else a vacant one. -/
def entryFor (entries : List Entry) (mac : Mac) : Option Nat :=
  match entryByMac entries mac with
  | some i => some i
  | none => vacantAddress entries

/-- `case DHCP_DISCOVER`. -/
def discover (cfg : Config) (netif : Netif) (alloc : Bool) (s : Server) : Server × Option Reply :=
  match (entryFor s.entries (chaddr s.dhcpData)).bind fun i => s.entries[i]? with
  | none => (s, none)
  | some e =>
    let d := fillReply cfg netif dhcpOffer e.addr e.lease s.dhcpData
    let s := { s with dhcpData := d }
    if alloc then (s, some ⟨d, getDhcpDestination netif d e.addr false⟩) else (s, none)

/-- The entry of the hardware address is freed, if there is one. -/
def freeClient (entries : List Entry) (mac : Mac) : List Entry :=
  match entryByMac entries mac with
  | some i => freeEntry entries i
  | none => entries

/-- `case DHCP_REQUEST`. -/
def request (cfg : Config) (netif : Netif) (alloc : Bool) (s : Server) : Server × Option Reply :=
  match requestedIp s.dhcpData with
  | none => (s, none)
  | some ip =>
    let s := { s with entries := freeClient s.entries (chaddr s.dhcpData) }
    match entryByIp s.entries ip with
    | none => (s, none)
    | some i =>
      match s.entries[i]? with
      | none => (s, none)
      | some e =>
        if isVacant e then
          let d := fillReply cfg netif dhcpAck ip e.lease s.dhcpData
          let s := { s with dhcpData := d }
          if alloc then
            ({ s with entries := setMac s.entries i (chaddr d) },
              some ⟨d, getDhcpDestination netif d e.addr false⟩)
          else (s, none)
        else (s, none)

/-- `udp_recv_proc` for the octets `payload`; `alloc` is whether `pbuf_alloc` succeeds. -/
def udpRecvProc (cfg : Config) (netif : Netif) (alloc : Bool) (payload : List Byte) (s : Server) :
    Server × Option Reply :=
  let s := { s with dhcpData := receive payload s.dhcpData }
  match messageType s.dhcpData with
  | none => (s, none)
  | some t =>
    if t = dhcpDiscover then discover cfg netif alloc s
    else if t = dhcpRequest then request cfg netif alloc s
    else (s, none)

/-! ## The configuration (`usb_netif.c`) -/

/-- `INIT_IP4`. -/
def initIp4 (a b c d : Byte) : Ip4 := d ++ c ++ b ++ a

/-- `entries`. -/
def usbEntries : List Entry :=
  [⟨noMac, initIp4 192 168 4 2, 86400⟩, ⟨noMac, initIp4 192 168 4 3, 86400⟩,
    ⟨noMac, initIp4 192 168 4 4, 86400⟩]

/-- `dhcp_config`, with the domain `usb`. -/
def dhcpConfig : Config where
  router := initIp4 192 168 4 1
  dns := initIp4 192 168 4 1
  domain := some [0x75, 0x73, 0x62]

/-- `ipaddr` and `netmask`, which has the octets of the gateway in the source. -/
def usbNetif : Netif where
  ipAddr := initIp4 192 168 4 1
  netmask := initIp4 192 168 4 1

/-- The server at reset. -/
def Server.reset : Server where
  entries := usbEntries
  dhcpData _ := 0

end Rs485.Dhcp
