import SocketServer.Lib.Inet
import SocketServer.Lib.OnesComplement

/-!
# Packets (`PcapReplayer` of `replayer.py`)

The parsers of the replayer, the rewriting of addresses and ports (`modify_packet`, `build_modified_packet`) and of the
VLAN tag (`add_or_modify_vlan`).

`none` stands for an exception in a parser. `build_modified_packet` and `modify_packet` catch every exception and return
the frame as it came, which is what they do with a frame they do not rewrite, too.
-/

namespace SocketServer.Replay

open Bytes Inet

/-! ### Parsing -/

structure Ethernet where
  dst : Bytes
  src : Bytes
  ethType : Nat
  payload : Bytes
  deriving DecidableEq, Repr

def parseEthernet (data : Bytes) : Option Ethernet :=
  if data.length < 14 then none
  else some ⟨slice data 0 6, slice data 6 12, decode .big (slice data 12 14), data.drop 14⟩

structure Vlan where
  vlanId : Nat
  ethType : Nat
  payload : Bytes
  deriving DecidableEq, Repr

def parseVlan (payload : Bytes) : Option Vlan :=
  if payload.length < 4 then none
  else some ⟨decode .big (slice payload 0 2) % 0x1000, decode .big (slice payload 2 4), payload.drop 4⟩

/-- The two results of `parse_ip` that are not `None`. -/
inductive IpVersion
  | ipv4
  | ipv6
  deriving DecidableEq, Repr

structure Ip where
  version : IpVersion
  src : Str
  dst : Str
  proto : Nat
  payload : Bytes
  deriving DecidableEq, Repr

/-- `parse_ip`; `none` is five times `None`. -/
def parseIp (payload : Bytes) : Option Ip := do
  let first ← payload[0]?
  if first.toNat / 16 = 4 then
    let src ← inetNtoa (slice payload 12 16)
    let dst ← inetNtoa (slice payload 16 20)
    let proto ← payload[9]?
    some ⟨.ipv4, src, dst, proto.toNat, payload.drop (first.toNat % 16 * 4)⟩
  else if first.toNat / 16 = 6 then
    let src ← inetNtop6 (slice payload 8 24)
    let dst ← inetNtop6 (slice payload 24 40)
    let proto ← payload[6]?
    some ⟨.ipv6, src, dst, proto.toNat, payload.drop 40⟩
  else none

structure Transport where
  sport : Option Nat
  dport : Option Nat
  flags : Nat
  deriving DecidableEq, Repr

def parseTransport (proto : Nat) (payload : Bytes) : Transport :=
  if (proto = 6 ∨ proto = 17) ∧ 4 ≤ payload.length then
    { sport := some (decode .big (slice payload 0 2))
      dport := some (decode .big (slice payload 2 4))
      flags := if proto = 6 then (payload.getD 13 0).toNat else 0 }
  else ⟨none, none, 0⟩

/-- The ethertype and what follows it, behind the VLAN tag if there is one. -/
def parseInner (ethBytes : Bytes) : Option (Nat × Bytes) := do
  let eth ← parseEthernet ethBytes
  if eth.ethType = 0x8100 then
    let vlan ← parseVlan eth.payload
    some (vlan.ethType, vlan.payload)
  else some (eth.ethType, eth.payload)

/-! ### Tagging -/

def addOrModifyVlan (ethBytes : Bytes) (vlanId : Option Int) : Option Bytes :=
  let dst := slice ethBytes 0 6
  let src := slice ethBytes 6 12
  let ethType := slice ethBytes 12 14
  let payload := ethBytes.drop 14
  match vlanId with
  | none => some ethBytes
  | some vlanId => do
    let vid ← packInt .big 2 vlanId
    if ethType = [0x81, 0x00] then some (dst ++ src ++ ethType ++ vid ++ payload.drop 4)
    else some (dst ++ src ++ [0x81, 0x00] ++ vid ++ ethType ++ payload)

/-! ### Checksums -/

/-- `data += b'\x00'` of `checksum`, which also lengthens a `bytearray` of the caller. -/
def padded (data : Bytes) : Bytes := if data.length % 2 = 1 then data ++ [0] else data

def checksum (data : Bytes) : Nat :=
  let s := OnesComplement.total (padded data)
  let s := s / 65536 + s % 65536
  let s := s + s / 65536
  65535 - s % 65536

/-- The checksum of a header over itself, at `i`. -/
def fillOwnChecksum (header : Bytes) (i : Nat) : Bytes :=
  let zeroed := padded (splice header i (i + 2) [0, 0])
  splice zeroed i (i + 2) (encode .big 2 (checksum zeroed))

/-- The checksum over a pseudo-header and `trans`, at `i` of `trans`. -/
def fillChecksum (pseudo trans : Bytes) (i : Nat) : Bytes :=
  let zeroed := splice trans i (i + 2) [0, 0]
  splice zeroed i (i + 2) (encode .big 2 (checksum (pseudo ++ zeroed)))

/-- The checksum of TCP and of UDP; the one of SCTP is left as it is. -/
def fillTransport (proto : UInt8) (pseudo trans : Bytes) : Bytes :=
  if proto = 6 then fillChecksum pseudo trans 16
  else if proto = 17 then fillChecksum pseudo trans 6
  else trans

/-! ### Rewriting -/

inductive Direction
  | uplink
  | downlink
  deriving DecidableEq, Repr

/-- `FlowInfo`, without the time of its first packet. -/
structure FlowInfo where
  direction : Direction
  modifiedIpSrc : Option Str
  modifiedIpDst : Option Str
  modifiedSport : Option Int
  modifiedDport : Option Int
  ipVersion : Option Nat
  deriving DecidableEq, Repr

/-- A string that counts as true. -/
def given (s : Option Str) : Option Str := s.filter fun s => !s.isEmpty

/-- A number that counts as true. -/
def nonzero (n : Option Int) : Option Int := n.filter fun n => n != 0

def isIpv4Address (addr : Str) : Bool := (inetAton addr).isSome

def isIpv6Address (addr : Str) : Bool := (inetPton6 addr).isSome

/-- `target_is_ipv4` and `target_is_ipv6`. -/
def FlowInfo.target (valid : Str → Bool) (flow : FlowInfo) : Bool :=
  (given flow.modifiedIpSrc).any valid || (given flow.modifiedIpDst).any valid

/-- `header[i:j]` set to a target address, if there is one. -/
def setAddress (read : Str → Option Bytes) (target : Option Str) (i j : Nat) (header : Bytes) : Option Bytes :=
  match given target with
  | some addr => (read addr).map (splice header i j)
  | none => some header

def setPort (target : Option Int) (i j : Nat) (header : Bytes) : Option Bytes :=
  match target with
  | some port => (packInt .big 2 port).map (splice header i j)
  | none => some header

/-- `trans_full` with the target ports. -/
def FlowInfo.setPorts (flow : FlowInfo) (payload : Bytes) : Option Bytes := do
  let header ← setPort flow.modifiedSport 0 2 (payload.take 4)
  let header ← setPort flow.modifiedDport 2 4 header
  some (header ++ payload.drop 4)

def hasPorts (proto : UInt8) : Bool := proto == 6 || proto == 17 || proto == 132

/-- The branch `IPv4`: the bytes behind the Ethernet header. -/
def rewriteIpv4 (flow : FlowInfo) (payload : Bytes) : Option Bytes := do
  let first ← payload[0]?
  let ihl := first.toNat % 16 * 4
  let ipPayload := payload.drop ihl
  let proto ← (payload.take ihl)[9]?
  let ipHeader ← setAddress inetAton flow.modifiedIpSrc 12 16 (payload.take ihl)
  let ipHeader ← setAddress inetAton flow.modifiedIpDst 16 20 ipHeader
  let ipHeader := fillOwnChecksum ipHeader 10
  if hasPorts proto then
    let trans ← flow.setPorts ipPayload
    let len ← pack .big 2 trans.length
    some (ipHeader ++ fillTransport proto (slice ipHeader 12 20 ++ [0, proto] ++ len) trans)
  else if proto = 1 then some (ipHeader ++ fillOwnChecksum ipPayload 2)
  else some (ipHeader ++ ipPayload)

def rewriteIpv6 (flow : FlowInfo) (payload : Bytes) : Option Bytes := do
  let ip6Payload := payload.drop 40
  let nextHeader ← (payload.take 40)[6]?
  let ip6Header ← setAddress inetPton6 flow.modifiedIpSrc 8 24 (payload.take 40)
  let ip6Header ← setAddress inetPton6 flow.modifiedIpDst 24 40 ip6Header
  if hasPorts nextHeader then
    let trans ← flow.setPorts ip6Payload
    let len ← pack .big 4 trans.length
    some (ip6Header ++ fillTransport nextHeader
      (slice ip6Header 8 24 ++ slice ip6Header 24 40 ++ len ++ [0, 0, 0, nextHeader]) trans)
  else if nextHeader = 58 then some (ip6Header ++ fillOwnChecksum ip6Payload 2)
  else some (ip6Header ++ ip6Payload)

/-- `trans_full` of a translated packet: the target ports, or its own ones where a target is missing or zero. -/
def FlowInfo.translatePorts (flow : FlowInfo) (payload : Bytes) : Option Bytes :=
  if payload.length < 4 then none
  else do
    let sport ← packInt .big 2 ((nonzero flow.modifiedSport).getD (decode .big (slice payload 0 2)))
    let dport ← packInt .big 2 ((nonzero flow.modifiedDport).getD (decode .big (slice payload 2 4)))
    some (sport ++ dport ++ payload.drop 4)

def translateIpv6 (flow : FlowInfo) (payload : Bytes) : Option Bytes := do
  let ip6Payload := payload.drop 40
  let nextHeader ← (payload.take 40)[6]?
  if !hasPorts nextHeader && nextHeader != 58 then none
  else
    let totalLength ← pack .big 2 (20 + ip6Payload.length)
    let src ← flow.modifiedIpSrc.bind inetAton
    let dst ← flow.modifiedIpDst.bind inetAton
    let ipv4Header := fillOwnChecksum ([0x45, 0] ++ totalLength ++ [0, 0, 0, 0, 64, nextHeader, 0, 0] ++ src ++ dst) 10
    if hasPorts nextHeader then
      let trans ← flow.translatePorts ip6Payload
      let len ← pack .big 2 trans.length
      some (ipv4Header ++ fillTransport nextHeader (slice ipv4Header 12 20 ++ [0, nextHeader] ++ len) trans)
    else some (ipv4Header ++ ip6Payload)

def translateIpv4 (flow : FlowInfo) (payload : Bytes) : Option Bytes := do
  let ipPayload := payload.drop 20
  let proto ← (payload.take 20)[9]?
  if !hasPorts proto && proto != 1 then none
  else
    let payloadLength ← pack .big 2 ipPayload.length
    let src ← flow.modifiedIpSrc.bind inetPton6
    let dst ← flow.modifiedIpDst.bind inetPton6
    let ipv6Header := [0x60, 0, 0, 0] ++ payloadLength ++ [proto, 64] ++ src ++ dst
    if hasPorts proto then
      let trans ← flow.translatePorts ipPayload
      let len ← pack .big 4 trans.length
      some (ipv6Header ++ fillTransport proto
        (slice ipv6Header 8 24 ++ slice ipv6Header 24 40 ++ len ++ [0, 0, 0, proto]) trans)
    else some (ipv6Header ++ ipPayload)

/-- What `build_modified_packet` puts behind the Ethernet header, `none` if it returns the frame as it came. -/
def rewritten (flow : FlowInfo) (payload : Bytes) : Option Bytes := do
  let first ← payload[0]?
  let version := first.toNat / 16
  if version = 4 ∧ flow.target isIpv4Address then rewriteIpv4 flow payload
  else if version = 6 ∧ flow.target isIpv6Address then rewriteIpv6 flow payload
  else if version = 6 ∧ flow.target isIpv4Address then translateIpv6 flow payload
  else if version = 4 ∧ flow.target isIpv6Address then translateIpv4 flow payload
  else none

def buildModifiedPacket (ethBytes : Bytes) (flow : FlowInfo) : Bytes :=
  match rewritten flow (ethBytes.drop 14) with
  | some payload => ethBytes.take 14 ++ payload
  | none => ethBytes

/-- The settings of a `PcapReplayer` that packets depend on. -/
structure Replayer where
  forceIpSrc : Option Str
  forceIpDst : Option Str
  forceSport : Option Int
  forceDport : Option Int
  uplinkVlan : Option Int
  downlinkVlan : Option Int
  deriving DecidableEq, Repr

def Replayer.noTupleModification (r : Replayer) : Bool :=
  r.forceIpSrc.isNone && r.forceIpDst.isNone && r.forceSport.isNone && r.forceDport.isNone

/-- `flow_info` with the targets of a packet: downlink packets have the forced source as destination. -/
def Replayer.targets (r : Replayer) (direction : Direction) (ip : Option Ip) (flow : FlowInfo) : FlowInfo :=
  let transport := match ip with
    | some ip => parseTransport ip.proto ip.payload
    | none => ⟨none, none, 0⟩
  let flow := { flow with ipVersion := if ip.map Ip.version = some IpVersion.ipv4 then some 4 else some 6 }
  match direction with
  | .uplink =>
    { flow with
      modifiedIpSrc := (given r.forceIpSrc).or (ip.map Ip.src)
      modifiedIpDst := (given r.forceIpDst).or (ip.map Ip.dst)
      modifiedSport := (nonzero r.forceSport).or (transport.sport.map Int.ofNat)
      modifiedDport := (nonzero r.forceDport).or (transport.dport.map Int.ofNat) }
  | .downlink =>
    { flow with
      modifiedIpSrc := (given r.forceIpDst).or (ip.map Ip.src)
      modifiedIpDst := (given r.forceIpSrc).or (ip.map Ip.dst)
      modifiedSport := (nonzero r.forceDport).or (transport.sport.map Int.ofNat)
      modifiedDport := (nonzero r.forceSport).or (transport.dport.map Int.ofNat) }

/-- `modify_packet`, with the entry of `flow_table` for `flow_key`: the frame, and the entry it leaves. -/
def Replayer.modifyPacket (r : Replayer) (ethBytes : Bytes) (flow : Option FlowInfo) (direction : Direction) :
    Bytes × Option FlowInfo :=
  match flow with
  | none => (ethBytes, none)
  | some flow =>
    if r.noTupleModification then (ethBytes, some flow)
    else
      match parseInner ethBytes with
      | none => (ethBytes, some flow)
      | some (ethType, payload) =>
        if ethType ≠ 0x0800 ∧ ethType ≠ 0x86DD then (ethBytes, some flow)
        else
          let flow := r.targets direction (parseIp payload) flow
          (buildModifiedPacket ethBytes flow, some flow)

/-- The frame that `send_packet` sends. -/
def Replayer.sentPacket (r : Replayer) (rawPkt : Bytes) (flow : Option FlowInfo) (direction : Direction) :
    Option Bytes :=
  addOrModifyVlan (r.modifyPacket rawPkt flow direction).1
    (match direction with | .uplink => r.uplinkVlan | .downlink => r.downlinkVlan)

end SocketServer.Replay
