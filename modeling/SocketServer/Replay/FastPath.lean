import SocketServer.Replay.Cache
import SocketServer.Replay.Direction
import SocketServer.Replay.Tagging

/-!
# Replaying a file (`replay_file`, `send_packet`), with and without flows

For each packet `replay_file` infers a direction from the flow table, and `send_packet` rewrites and tags the packet and
sends it on the socket of that direction. Where both directions have the same interface and VLAN and nothing is
rewritten, all of this is skipped, unless flows are forced.

* `sendPacket_undirected` : where there is nothing to tell the directions apart, what is sent does not depend on the
  direction, nor on the flow;
* `replayFile_agree` : so the two ways send the same packets on the same socket.

The sends succeed. The pauses of the rate control and the log are left out.
-/

namespace SocketServer.Replay

open Bytes Inet Capture

/-! ### Sending (`send_packet`) -/

/-- The settings of a `PcapReplayer` that a replay depends on; `downlinkIface` is the argument, which may be missing. -/
structure Settings extends Replayer where
  uplinkIface : Str
  downlinkIface : Option Str
  forceBuildFlow : Bool
  hints : Hints
  deriving DecidableEq, Repr

/-- `self.downlink_iface`. -/
def Settings.downlink (c : Settings) : Str := (given c.downlinkIface).getD c.uplinkIface

def Settings.directionless (c : Settings) : Bool :=
  decide (c.downlinkIface = some c.uplinkIface) && decide (c.uplinkVlan = c.downlinkVlan)

inductive Socket
  | uplinkSocket
  | downlinkSocket
  deriving DecidableEq, Repr

/-- `_setup_sockets` opens a second socket only for a second interface; the first one serves both otherwise. -/
def Settings.socket (c : Settings) (direction : Direction) : Socket :=
  if direction = .downlink ∧ c.uplinkIface ≠ c.downlink then .downlinkSocket else .uplinkSocket

/-- The contents of the cache files that are open. -/
structure Writers where
  uplink : Option Bytes
  downlink : Option Bytes
  single : Option Bytes
  deriving DecidableEq, Repr

/-- The fields of a `PcapReplayer` that a replay changes, and what its sockets were given. -/
structure ReplayState where
  flows : Flows
  writers : Writers
  sent : List (Socket × Bytes)
  uplinkPackets : Nat
  uplinkBytes : Nat
  downlinkPackets : Nat
  downlinkBytes : Nat
  totalBytes : Nat

/-- Appending a packet to a cache file, if it is open; `none` is a `struct.error`. -/
def writeCached (p : CachedPacket) : Option Bytes → Option (Option Bytes)
  | some f => (writePcapPacket f p).map some
  | none => some none

/-- The cache of a sent packet: one file for each direction, or a single one. -/
def Settings.cache (c : Settings) (direction : Direction) (p : CachedPacket) (w : Writers) : Option Writers :=
  if c.uplinkIface ≠ c.downlink then
    match direction with
    | .uplink => (writeCached p w.uplink).map fun f => { w with uplink := f }
    | .downlink => (writeCached p w.downlink).map fun f => { w with downlink := f }
  else (writeCached p w.single).map fun f => { w with single := f }

/-- The counters after a packet. -/
def ReplayState.count (s : ReplayState) (direction : Direction) (originalPacketLength : Nat) : ReplayState :=
  match direction with
  | .uplink =>
    { s with
      uplinkPackets := s.uplinkPackets + 1
      uplinkBytes := s.uplinkBytes + max originalPacketLength 60
      totalBytes := s.totalBytes + max originalPacketLength 60 }
  | .downlink =>
    { s with
      downlinkPackets := s.downlinkPackets + 1
      downlinkBytes := s.downlinkBytes + max originalPacketLength 60
      totalBytes := s.totalBytes + max originalPacketLength 60 }

/-- `flow_table` with the targets that `modify_packet` leaves in the entry of the packet. -/
def Flows.setEntry (s : Flows) (key : Option FiveTuple) (flow : Option FlowInfo) : Flows :=
  match key, flow with
  | some key, some flow => { s with flowTable := s.flowTable.insert key flow }
  | _, _ => s

section

variable (c : Settings) (stamp : ReplayRecord → Nat × Nat)

/-- The rest of `send_packet` for the frame it sends: the socket, the cache and the counters. An exception of the cache
is caught, and nothing is counted. `stamp` gives the two numbers that `_write_pcap_packet` makes of the timestamp, a
float. -/
def Settings.transmit (s : ReplayState) (r : ReplayRecord) (direction : Direction) (pkt : Bytes) : ReplayState :=
  let s := { s with sent := s.sent ++ [(c.socket direction, pkt)] }
  match c.cache direction ⟨pkt, (stamp r).1, (stamp r).2⟩ s.writers with
  | none => s
  | some w => { s with writers := w }.count direction r.origLen

/-- `send_packet`, and whether it returns: a VLAN that does not fit its field is a `struct.error`. -/
def Settings.sendPacket (s : ReplayState) (r : ReplayRecord) (direction : Direction) (key : Option FiveTuple) :
    ReplayState × Bool :=
  let flow := key.bind s.flows.flowTable.lookup
  let s := { s with flows := s.flows.setEntry key (c.modifyPacket r.pktData flow direction).2 }
  match c.sentPacket r.pktData flow direction with
  | none => (s, false)
  | some pkt => (c.transmit stamp s r direction pkt, true)

/-! ### The loop (`replay_file`) -/

/-- What the loop parses of a packet that it does not skip: the Ethernet header and the IP header. -/
def parsePacket (pktData : Bytes) : Option (Ethernet × Ip) := do
  let eth ← parseEthernet pktData
  let (ethType, payload) ← parseInner pktData
  if ethType = 0x0800 ∨ ethType = 0x86DD then
    let ip ← parseIp payload
    some (eth, ip)
  else none

/-- Sending a packet whose headers are these: without flows where the settings allow it. -/
def Settings.dispatch (s : ReplayState) (r : ReplayRecord) (eth : Ethernet) (ip : Ip) : ReplayState × Bool :=
  if c.directionless && c.noTupleModification && !c.forceBuildFlow then c.sendPacket stamp s r .uplink none
  else
    let transport := parseTransport ip.proto ip.payload
    let key := getFiveTuple eth ip.src ip.dst transport.sport transport.dport ip.proto
    let (direction, flows) := c.hints.getDirection s.flows key ip.proto transport.flags
    c.sendPacket stamp { s with flows := flows } r direction (some key)

/-- One turn of the loop, with `packets_count`. -/
def Settings.replayPacket (s : ReplayState × Nat) (r : ReplayRecord) : ReplayState × Nat :=
  match parsePacket r.pktData with
  | none => s
  | some (eth, ip) =>
    let (s', returned) := c.dispatch stamp s.1 r eth ip
    (s', if returned then s.2 + 1 else s.2)

def Settings.replayLoop (s : ReplayState) (records : List ReplayRecord) : ReplayState × Nat :=
  records.foldl (c.replayPacket stamp) (s, 0)

/-- `replay_file` for a file with these bytes. -/
def Settings.replayFile (host : Endian) (s : ReplayState) (file : Bytes) : ReplayState × Except ReplayError Nat :=
  let read := replayRecords host file
  let (s, packetsCount) := c.replayLoop stamp s read.1
  (s, read.2.elim (.ok packetsCount) .error)

end

/-! ### Settings without directions -/

/-- One interface and one VLAN for both directions, and nothing to rewrite. -/
structure Settings.Undirected (c : Settings) : Prop where
  iface : c.downlinkIface = some c.uplinkIface
  vlan : c.uplinkVlan = c.downlinkVlan
  forced : c.noTupleModification = true

/-- Two states of a replay that the outside does not tell apart: what was sent, the cache files and the bytes. -/
structure Agree (s s' : ReplayState) : Prop where
  sent : s.sent = s'.sent
  writers : s.writers = s'.writers
  totalBytes : s.totalBytes = s'.totalBytes

theorem Agree.refl (s : ReplayState) : Agree s s := ⟨rfl, rfl, rfl⟩

theorem Agree.flows {s s' : ReplayState} (h : Agree s s') (flows flows' : Flows) :
    Agree { s with flows := flows } { s' with flows := flows' } :=
  ⟨h.sent, h.writers, h.totalBytes⟩

theorem Agree.send {s s' : ReplayState} (h : Agree s s') (x : Socket × Bytes) :
    Agree { s with sent := s.sent ++ [x] } { s' with sent := s'.sent ++ [x] } :=
  ⟨congrArg (· ++ [x]) h.sent, h.writers, h.totalBytes⟩

theorem Agree.write {s s' : ReplayState} (h : Agree s s') (w : Writers) :
    Agree { s with writers := w } { s' with writers := w } :=
  ⟨h.sent, rfl, h.totalBytes⟩

theorem Agree.count {s s' : ReplayState} (h : Agree s s') (direction direction' : Direction) (n : Nat) :
    Agree (s.count direction n) (s'.count direction' n) := by
  have hbytes : s.totalBytes + max n 60 = s'.totalBytes + max n 60 := by rw [h.totalBytes]
  cases direction with
  | uplink =>
    cases direction' with
    | uplink => exact ⟨h.sent, h.writers, hbytes⟩
    | downlink => exact ⟨h.sent, h.writers, hbytes⟩
  | downlink =>
    cases direction' with
    | uplink => exact ⟨h.sent, h.writers, hbytes⟩
    | downlink => exact ⟨h.sent, h.writers, hbytes⟩

theorem modifyPacket_of_noTuple {r : Replayer} (h : r.noTupleModification = true) (rawPkt : Bytes)
    (flow : Option FlowInfo) (direction : Direction) : (r.modifyPacket rawPkt flow direction).1 = rawPkt := by
  cases flow with
  | none => rfl
  | some flow => rw [Replayer.modifyPacket, if_pos h]

section

variable {c : Settings} (h : c.Undirected)

include h

theorem Settings.Undirected.downlink : c.downlink = c.uplinkIface := by
  rw [Settings.downlink, h.iface, given]
  cases c.uplinkIface with
  | nil => rfl
  | cons a s => rfl

theorem Settings.Undirected.socket (direction : Direction) : c.socket direction = .uplinkSocket := by
  rw [Settings.socket, h.downlink, if_neg fun hne => hne.2 rfl]

theorem Settings.Undirected.cache (direction : Direction) (p : CachedPacket) (w : Writers) :
    c.cache direction p w = (writeCached p w.single).map fun f => { w with single := f } := by
  unfold Settings.cache
  rw [h.downlink, if_neg fun hne => hne rfl]

theorem Settings.Undirected.sentPacket (rawPkt : Bytes) (flow : Option FlowInfo) (direction : Direction) :
    c.sentPacket rawPkt flow direction = addOrModifyVlan rawPkt c.uplinkVlan := by
  unfold Replayer.sentPacket
  rw [modifyPacket_of_noTuple h.forced]
  cases direction with
  | uplink => rfl
  | downlink => rw [h.vlan]

theorem Settings.Undirected.directionless : c.directionless = true := by
  rw [Settings.directionless, decide_eq_true h.iface, decide_eq_true h.vlan, Bool.and_self]

theorem Settings.Undirected.transmit_agree (stamp : ReplayRecord → Nat × Nat) {s s' : ReplayState}
    (hagree : Agree s s') (r : ReplayRecord) (direction direction' : Direction) (pkt : Bytes) :
    Agree (c.transmit stamp s r direction pkt) (c.transmit stamp s' r direction' pkt) := by
  have hsent := hagree.send (.uplinkSocket, pkt)
  have hcache : c.cache direction ⟨pkt, (stamp r).1, (stamp r).2⟩ s.writers =
      c.cache direction' ⟨pkt, (stamp r).1, (stamp r).2⟩ s'.writers := by
    rw [h.cache, h.cache, hagree.writers]
  unfold Settings.transmit
  rw [h.socket, h.socket]
  dsimp only
  rw [hcache]
  cases c.cache direction' ⟨pkt, (stamp r).1, (stamp r).2⟩ s'.writers with
  | none => exact hsent
  | some w => exact (hsent.write w).count direction direction' r.origLen

/-- **What is sent** does not depend on the direction, nor on the flow. -/
theorem sendPacket_undirected (stamp : ReplayRecord → Nat × Nat) {s s' : ReplayState} (hagree : Agree s s')
    (r : ReplayRecord) (direction direction' : Direction) (key key' : Option FiveTuple) :
    Agree (c.sendPacket stamp s r direction key).1 (c.sendPacket stamp s' r direction' key').1 ∧
      (c.sendPacket stamp s r direction key).2 = (c.sendPacket stamp s' r direction' key').2 := by
  simp only [Settings.sendPacket, h.sentPacket]
  cases addOrModifyVlan r.pktData c.uplinkVlan with
  | none => exact ⟨hagree.flows _ _, rfl⟩
  | some pkt => exact ⟨h.transmit_agree stamp (hagree.flows _ _) r direction direction' pkt, rfl⟩

end

/-! ### With and without flows -/

theorem dispatch_agree {c : Settings} (h : c.Undirected) (stamp : ReplayRecord → Nat × Nat) {s s' : ReplayState}
    (hagree : Agree s s') (r : ReplayRecord) (eth : Ethernet) (ip : Ip) :
    Agree ({ c with forceBuildFlow := false }.dispatch stamp s r eth ip).1
        ({ c with forceBuildFlow := true }.dispatch stamp s' r eth ip).1 ∧
      ({ c with forceBuildFlow := false }.dispatch stamp s r eth ip).2 =
        ({ c with forceBuildFlow := true }.dispatch stamp s' r eth ip).2 := by
  have hfast : { c with forceBuildFlow := false }.dispatch stamp s r eth ip =
      c.sendPacket stamp s r .uplink none := by
    rw [Settings.dispatch, if_pos]
    · rfl
    · rw [Bool.and_eq_true, Bool.and_eq_true]
      exact ⟨⟨h.directionless, h.forced⟩, rfl⟩
  have hslow : ∃ flows direction key, { c with forceBuildFlow := true }.dispatch stamp s' r eth ip =
      c.sendPacket stamp { s' with flows := flows } r direction (some key) := by
    rw [Settings.dispatch, if_neg]
    · exact ⟨_, _, _, rfl⟩
    · rw [Bool.and_eq_true]
      exact fun hfalse => Bool.false_ne_true hfalse.2
  obtain ⟨flows, direction, key, hslow⟩ := hslow
  rw [hfast, hslow]
  exact sendPacket_undirected h stamp (hagree.flows s.flows flows) r .uplink direction none (some key)

theorem replayPacket_agree {c : Settings} (h : c.Undirected) (stamp : ReplayRecord → Nat × Nat)
    {s s' : ReplayState × Nat} (hagree : Agree s.1 s'.1 ∧ s.2 = s'.2) (r : ReplayRecord) :
    Agree ({ c with forceBuildFlow := false }.replayPacket stamp s r).1
        ({ c with forceBuildFlow := true }.replayPacket stamp s' r).1 ∧
      ({ c with forceBuildFlow := false }.replayPacket stamp s r).2 =
        ({ c with forceBuildFlow := true }.replayPacket stamp s' r).2 := by
  obtain ⟨hstate, hcount⟩ := hagree
  rw [Settings.replayPacket, Settings.replayPacket]
  rcases parsePacket r.pktData with _ | ⟨eth, ip⟩
  · exact ⟨hstate, hcount⟩
  · obtain ⟨hsent, hreturned⟩ := dispatch_agree h stamp hstate r eth ip
    exact ⟨hsent, by simp only [hreturned, hcount]⟩

theorem replayLoop_agree {c : Settings} (h : c.Undirected) (stamp : ReplayRecord → Nat × Nat) {s s' : ReplayState}
    (hagree : Agree s s') (records : List ReplayRecord) :
    Agree ({ c with forceBuildFlow := false }.replayLoop stamp s records).1
        ({ c with forceBuildFlow := true }.replayLoop stamp s' records).1 ∧
      ({ c with forceBuildFlow := false }.replayLoop stamp s records).2 =
        ({ c with forceBuildFlow := true }.replayLoop stamp s' records).2 :=
  List.foldl_rel (r := fun (s s' : ReplayState × Nat) => Agree s.1 s'.1 ∧ s.2 = s'.2) ⟨hagree, rfl⟩
    fun r _ _ _ hr => replayPacket_agree h stamp hr r

/-- **The fast path.** For one interface and one VLAN and nothing to rewrite, a replay of any file without flows and one
with flows send the same packets on the same socket, write the same cache files, add the same to `total_bytes`, and
return the same count or raise the same exception. -/
theorem replayFile_agree (c : Settings) (h : c.Undirected) (stamp : ReplayRecord → Nat × Nat) (host : Endian)
    (s : ReplayState) (file : Bytes) :
    Agree ({ c with forceBuildFlow := false }.replayFile stamp host s file).1
        ({ c with forceBuildFlow := true }.replayFile stamp host s file).1 ∧
      ({ c with forceBuildFlow := false }.replayFile stamp host s file).2 =
        ({ c with forceBuildFlow := true }.replayFile stamp host s file).2 := by
  obtain ⟨hloop, hcount⟩ := replayLoop_agree h stamp (Agree.refl s) (replayRecords host file).1
  refine ⟨hloop, ?_⟩
  simp only [Settings.replayFile, hcount]

/-- Both directions on one interface, in VLAN 5. -/
def oneWire : Settings :=
  ⟨⟨none, none, none, none, some 5, some 5⟩, "eth0".toList, some "eth0".toList, false, ⟨none, none⟩⟩

def freshState : ReplayState := ⟨⟨∅, 0⟩, ⟨none, none, none⟩, [], 0, 0, 0, 0, 0⟩

/-- A pcap file with a SYN and a frame that is cut off. -/
def synFile : Bytes :=
  encode .little 4 0xA1B2C3D4 ++ List.replicate 20 0 ++ headerBytes .little 1 2 synFrame.length ++ synFrame ++
    headerBytes .little 3 4 20 ++ synFrame.take 20

theorem replayFile_agree_oneWire :
    (({ oneWire with forceBuildFlow := false }.replayFile (fun r => (r.tsSec, r.tsFrac)) .little freshState
        synFile).1.sent.map Prod.fst = [.uplinkSocket]) ∧
      Agree ({ oneWire with forceBuildFlow := false }.replayFile (fun r => (r.tsSec, r.tsFrac)) .little freshState
          synFile).1
        ({ oneWire with forceBuildFlow := true }.replayFile (fun r => (r.tsSec, r.tsFrac)) .little freshState
          synFile).1 ∧
      ({ oneWire with forceBuildFlow := false }.replayFile (fun r => (r.tsSec, r.tsFrac)) .little freshState
          synFile).2 =
        ({ oneWire with forceBuildFlow := true }.replayFile (fun r => (r.tsSec, r.tsFrac)) .little freshState
          synFile).2 :=
  ⟨by decide +kernel, replayFile_agree oneWire ⟨rfl, rfl, rfl⟩ (fun r => (r.tsSec, r.tsFrac)) .little freshState synFile⟩

end SocketServer.Replay
