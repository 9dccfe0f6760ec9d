import Mathlib.Data.Char
import Mathlib.Data.List.Lex
import SocketServer.Capture.Pcap
import SocketServer.Lib.Grouping
import SocketServer.Lib.Inet

/-!
# Flows of a capture file (`pcap_flow.py`)

`extract_pcap_flow_five_tuples` groups the packets of each file into flows and names the client of each flow.

* `signal` : the client that a packet names, if it names one;
* `canonical_eq_iff` : the key of a packet is the flow it belongs to;
* `extractPcapFlowFiveTuples_flows` : the entries of a file, each a function of its own flow.
-/

namespace SocketServer.Capture

open Bytes Inet

/-! ### Packets -/

/-- `(ip, port)`. -/
structure Endpoint where
  ip : Str
  port : Str
  deriving DecidableEq, Repr

/-- `proto_type`. -/
inductive ProtoType
  | tcp
  | udp
  | sctp
  | icmp
  deriving DecidableEq, Repr

def ProtoType.text : ProtoType → Str
  | .tcp => ['1']
  | .udp => ['2']
  | .sctp => ['3']
  | .icmp => ['4']

def protoType (proto : Nat) : Option ProtoType :=
  if proto = 6 then some .tcp
  else if proto = 17 then some .udp
  else if proto = 132 then some .sctp
  else if proto = 1 ∨ proto = 58 then some .icmp
  else none

/-- What the loop keeps of a packet. -/
structure FlowPacket where
  src : Endpoint
  dst : Endpoint
  protoType : ProtoType
  proto : Nat
  flags : Nat
  trans : Bytes
  deriving DecidableEq, Repr

/-- `str(n)`. -/
def natText (n : Nat) : Str := Nat.toDigits 10 n

/-- The ports and the flags of a packet of this class; `none` is `continue`. -/
def portsAndFlags (type : ProtoType) (proto : Nat) (trans : Bytes) : Option (Str × Str × Nat) :=
  if type = .icmp then some (['0'], ['0'], 0)
  else if trans.length < 4 then none
  else some (natText (decode .big (slice trans 0 2)), natText (decode .big (slice trans 2 4)),
    if proto = 6 then (trans.getD 13 0).toNat else 0)

/-- The packet between these addresses; `none` is `continue`. -/
def classify (proto : Nat) (ipSrc ipDst : Str) (trans : Bytes) : Option FlowPacket := do
  let type ← protoType proto
  let (sport, dport, flags) ← portsAndFlags type proto trans
  some ⟨⟨ipSrc, sport⟩, ⟨ipDst, dport⟩, type, proto, flags, trans⟩

/-- The packet behind an Ethernet type; the outer `none` is an exception and the inner one is `continue`. -/
def parseNetwork (ethType : Nat) (payload : Bytes) : Option (Option FlowPacket) :=
  if ethType = 0x0800 then
    if payload.length < 20 then some none
    else do
      let ihl := (payload.getD 0 0).toNat % 16 * 4
      let ipSrc ← inetNtoa (slice payload 12 16)
      let ipDst ← inetNtoa (slice payload 16 20)
      some (classify (payload.getD 9 0).toNat ipSrc ipDst (payload.drop ihl))
  else if ethType = 0x86DD then
    if payload.length < 40 then some none
    else do
      let ipSrc ← inetNtop6 (slice payload 8 24)
      let ipDst ← inetNtop6 (slice payload 24 40)
      some (classify (payload.getD 6 0).toNat ipSrc ipDst (payload.drop 40))
  else some none

/-- The packet in the data of a record. -/
def parseFlowPacket (pktData : Bytes) : Option (Option FlowPacket) :=
  if pktData.length < 14 then some none
  else
    let ethType := decode .big (slice pktData 12 14)
    let payload := pktData.drop 14
    if ethType = 0x8100 then
      if payload.length < 4 then some none
      else parseNetwork (decode .big (slice payload 2 4)) (payload.drop 4)
    else parseNetwork ethType payload

/-! ### Signals -/

/-- `_HTTP_REQUEST_METHODS`. -/
def httpRequestMethods : List Bytes :=
  [[0x47, 0x45, 0x54, 0x20], [0x50, 0x4F, 0x53, 0x54, 0x20], [0x50, 0x55, 0x54, 0x20], [0x48, 0x45, 0x41, 0x44, 0x20],
    [0x44, 0x45, 0x4C, 0x45, 0x54, 0x45, 0x20], [0x4F, 0x50, 0x54, 0x49, 0x4F, 0x4E, 0x53, 0x20],
    [0x50, 0x41, 0x54, 0x43, 0x48, 0x20], [0x43, 0x4F, 0x4E, 0x4E, 0x45, 0x43, 0x54, 0x20],
    [0x54, 0x52, 0x41, 0x43, 0x45, 0x20]]

/-- `b"HTTP/1."`. -/
def httpResponse : Bytes := [0x48, 0x54, 0x54, 0x50, 0x2F, 0x31, 0x2E]

/-- The client that the handshake flags name. -/
def handshakeClient (p : FlowPacket) : Option Endpoint :=
  if p.proto = 6 then
    let syn := p.flags.testBit 1
    let ack := p.flags.testBit 4
    if syn && !ack then some p.src
    else if syn && ack then some p.dst
    else none
  else none

/-- The client that an HTTP message names. -/
def httpClient (p : FlowPacket) : Option Endpoint :=
  if p.proto = 6 ∧ 14 ≤ p.trans.length then
    let dataOffset := (p.trans.getD 12 0).toNat / 16 * 4
    let httpPayload := p.trans.drop dataOffset
    if httpRequestMethods.any (·.isPrefixOf httpPayload) then some p.src
    else if httpResponse.isPrefixOf httpPayload then some p.dst
    else none
  else none

/-- `signaled_client`. -/
def signal (p : FlowPacket) : Option Endpoint := (handshakeClient p).orElse fun _ => httpClient p

/-! ### The flow table -/

/-- `<` of two tuples. -/
def Endpoint.lt (a b : Endpoint) : Bool := decide (a.ip < b.ip ∨ a.ip = b.ip ∧ a.port < b.port)

/-- `canonical`. -/
structure Canonical where
  low : Endpoint
  high : Endpoint
  protoType : ProtoType
  deriving DecidableEq, Repr

def canonical (p : FlowPacket) : Canonical :=
  if p.dst.lt p.src then ⟨p.dst, p.src, p.protoType⟩ else ⟨p.src, p.dst, p.protoType⟩

structure Flow where
  firstSrc : Endpoint
  firstDst : Endpoint
  client : Endpoint
  finalized : Bool
  protoType : ProtoType
  deriving DecidableEq, Repr

/-- The flow after a packet of it. -/
def updateFlow (found : Option Flow) (p : FlowPacket) : Flow :=
  let flow := found.getD ⟨p.src, p.dst, p.src, false, p.protoType⟩
  if flow.finalized then flow
  else
    match signal p with
    | some client => { flow with client := client, finalized := true }
    | none => flow

structure FlowEntry where
  pcap : Str
  srcIp : Str
  srcPort : Str
  destIp : Str
  destPort : Str
  protoType : Str
  deriving DecidableEq, Repr

def entryBetween (pcapName : Str) (src dst : Endpoint) (type : ProtoType) : FlowEntry :=
  ⟨pcapName, src.ip, src.port, dst.ip, dst.port, type.text⟩

def Flow.entry (pcapName : Str) (flow : Flow) : FlowEntry :=
  if flow.client = flow.firstSrc then entryBetween pcapName flow.firstSrc flow.firstDst flow.protoType
  else entryBetween pcapName flow.firstDst flow.firstSrc flow.protoType

/-- The entries of the flows of these packets. -/
def flowEntries (pcapName : Str) (packets : List FlowPacket) : List FlowEntry :=
  (Grouping.group canonical updateFlow packets).values.map (Flow.entry pcapName)

/-- The entries of a file, none if it raises. -/
def fileFlowEntries (host : Endian) (pcapName : Str) (file : Bytes) : List FlowEntry :=
  match (flowRecords host file).mapM parseFlowPacket with
  | some packets => flowEntries pcapName (packets.filterMap id)
  | none => []

/-- `extract_pcap_flow_five_tuples` on the files that `os.walk` finds, with their names. -/
def extractPcapFlowFiveTuples (host : Endian) (files : List (Str × Bytes)) : List FlowEntry :=
  files.flatMap fun file => fileFlowEntries host file.1 file.2

/-! ### No packet raises -/

theorem inetNtoa_slice {s : Bytes} {i : Nat} (h : i + 4 ≤ s.length) :
    ∃ ip, inetNtoa (slice s i (i + 4)) = some ip := by
  have hlen : (slice s i (i + 4)).length = 4 := by rw [slice_length]; omega
  exact ⟨_, if_pos hlen⟩

theorem inetNtop6_slice {s : Bytes} {i : Nat} (h : i + 16 ≤ s.length) :
    ∃ ip, inetNtop6 (slice s i (i + 16)) = some ip := by
  have hlen : (slice s i (i + 16)).length = 16 := by rw [slice_length]; omega
  rw [inetNtop6, if_neg (not_not_intro hlen)]
  dsimp only
  split_ifs
  all_goals exact ⟨_, rfl⟩

theorem parseNetwork_isSome (ethType : Nat) (payload : Bytes) : (parseNetwork ethType payload).isSome := by
  rw [parseNetwork]
  split_ifs with _ hshort _ hshort
  · rfl
  · obtain ⟨src, hsrc⟩ := inetNtoa_slice (s := payload) (i := 12) (by omega)
    obtain ⟨dst, hdst⟩ := inetNtoa_slice (s := payload) (i := 16) (by omega)
    rw [hsrc, hdst]
    rfl
  · rfl
  · obtain ⟨src, hsrc⟩ := inetNtop6_slice (s := payload) (i := 8) (by omega)
    obtain ⟨dst, hdst⟩ := inetNtop6_slice (s := payload) (i := 24) (by omega)
    rw [hsrc, hdst]
    rfl
  · rfl

theorem parseFlowPacket_isSome (pktData : Bytes) : (parseFlowPacket pktData).isSome := by
  rw [parseFlowPacket]
  dsimp only
  split_ifs
  · rfl
  · rfl
  · exact parseNetwork_isSome ..
  · exact parseNetwork_isSome ..

/-- The packets of a file that the loop classifies. -/
def classified (host : Endian) (file : Bytes) : List FlowPacket :=
  (flowRecords host file).filterMap fun pktData => (parseFlowPacket pktData).join

theorem fileFlowEntries_eq (host : Endian) (pcapName : Str) (file : Bytes) :
    fileFlowEntries host pcapName file = flowEntries pcapName (classified host file) := by
  have hparse (datas : List Bytes) : ∃ packets, datas.mapM parseFlowPacket = some packets ∧
      packets.filterMap id = datas.filterMap fun pktData => (parseFlowPacket pktData).join := by
    induction datas with
    | nil => exact ⟨[], rfl, rfl⟩
    | cons pktData datas ih =>
      obtain ⟨packets, hpackets, hjoin⟩ := ih
      obtain ⟨packet, hpacket⟩ := Option.isSome_iff_exists.mp (parseFlowPacket_isSome pktData)
      refine ⟨packet :: packets, ?_, ?_⟩
      · rw [List.mapM_cons, hpacket, hpackets]
        rfl
      · rw [List.filterMap_cons, List.filterMap_cons, hpacket, hjoin]
        rfl
  obtain ⟨packets, hpackets, hjoin⟩ := hparse (flowRecords host file)
  rw [fileFlowEntries, hpackets, classified, ← hjoin]

/-! ### Flows -/

/-- The packets have the same two endpoints, in either direction, and the same class. -/
def SameFlow (p q : FlowPacket) : Prop :=
  (p.src = q.src ∧ p.dst = q.dst ∨ p.src = q.dst ∧ p.dst = q.src) ∧ p.protoType = q.protoType

instance (p q : FlowPacket) : Decidable (SameFlow p q) := inferInstanceAs (Decidable (_ ∧ _))

/-- The first packet of each flow. -/
def firstPackets : List FlowPacket → List FlowPacket
  | [] => []
  | p :: ps => p :: (firstPackets ps).filter fun q => ¬SameFlow p q

/-- The client of the flow that begins with `first`: whom the first packet with a signal names, else the first source. -/
def clientOf (first : FlowPacket) (flow : List FlowPacket) : Endpoint := (flow.findSome? signal).getD first.src

/-- The entry of the flow that begins with `first`. -/
def flowEntry (pcapName : Str) (first : FlowPacket) (flow : List FlowPacket) : FlowEntry :=
  let client := clientOf first flow
  entryBetween pcapName client (if client = first.src then first.dst else first.src) first.protoType

theorem Endpoint.not_lt_of_lt {a b : Endpoint} (h : a.lt b = true) : b.lt a = false := by
  simp only [Endpoint.lt, decide_eq_true_eq, decide_eq_false_iff_not] at h ⊢
  rintro (hip | ⟨hip, hport⟩)
  · rcases h with h | ⟨h, _⟩
    · exact lt_asymm h hip
    · exact absurd hip (h ▸ lt_irrefl _)
  · rcases h with h | ⟨_, h⟩
    · exact absurd h (hip ▸ lt_irrefl _)
    · exact lt_asymm h hport

theorem Endpoint.eq_of_not_lt {a b : Endpoint} (hab : a.lt b = false) (hba : b.lt a = false) : a = b := by
  simp only [Endpoint.lt, decide_eq_false_iff_not, not_or, not_and] at hab hba
  have hip : a.ip = b.ip := le_antisymm (le_of_not_gt hba.1) (le_of_not_gt hab.1)
  have hport : a.port = b.port := le_antisymm (le_of_not_gt (hba.2 hip.symm)) (le_of_not_gt (hab.2 hip))
  obtain ⟨ip, port⟩ := a
  obtain ⟨ip', port'⟩ := b
  exact congrArg₂ Endpoint.mk hip hport

/-- **The key of a packet** is that of the other packets between its endpoints, in both directions. -/
theorem canonical_eq_iff {p q : FlowPacket} : canonical p = canonical q ↔ SameFlow p q := by
  constructor
  · intro h
    simp only [canonical] at h
    split_ifs at h
    all_goals
      simp only [Canonical.mk.injEq] at h
      obtain ⟨hlow, hhigh, htype⟩ := h
      refine ⟨?_, htype⟩
      simp only [hlow, hhigh, and_self, true_or, or_true]
  · rintro ⟨⟨hsrc, hdst⟩ | ⟨hsrc, hdst⟩, htype⟩
    · rw [canonical, canonical, hsrc, hdst, htype]
    · rw [canonical, canonical, hsrc, hdst, htype]
      split_ifs with h h' h'
      · rw [Endpoint.not_lt_of_lt h] at h'
        cases h'
      · rfl
      · rfl
      · rw [Endpoint.eq_of_not_lt (Bool.eq_false_iff.mpr h) (Bool.eq_false_iff.mpr h')]

theorem firsts_canonical (ps : List FlowPacket) : Grouping.firsts canonical ps = firstPackets ps := by
  induction ps with
  | nil => rfl
  | cons p ps ih =>
    have hne (q : FlowPacket) : canonical q ≠ canonical p ↔ ¬SameFlow p q := by
      rw [ne_comm, Ne, canonical_eq_iff]
    rw [Grouping.firsts, firstPackets, ih]
    simp only [hne]

/-! ### The entry of a flow -/

theorem signal_endpoint {p : FlowPacket} {client : Endpoint} (h : signal p = some client) :
    client = p.src ∨ client = p.dst := by
  have hends : handshakeClient p = some client ∨ httpClient p = some client := by
    rw [signal] at h
    cases hshake : handshakeClient p with
    | some c => rw [hshake] at h; exact .inl h
    | none => rw [hshake] at h; exact .inr h
  rcases hends with h | h
  · simp only [handshakeClient] at h
    split_ifs at h
    · exact .inl (Option.some.inj h).symm
    · exact .inr (Option.some.inj h).symm
  · simp only [httpClient] at h
    split_ifs at h
    · exact .inl (Option.some.inj h).symm
    · exact .inr (Option.some.inj h).symm

/-- The state of a flow after packets of it: the first of its signals is in force. -/
theorem record_updateFlow (p : FlowPacket) (rest : List FlowPacket) :
    Grouping.record updateFlow (p :: rest) =
      some ⟨p.src, p.dst, clientOf p (p :: rest), ((p :: rest).findSome? signal).isSome, p.protoType⟩ := by
  induction rest using List.reverseRecOn with
  | nil =>
    have hstart : Grouping.record updateFlow [p] = some (updateFlow none p) := rfl
    rw [hstart, updateFlow, clientOf]
    cases hp : signal p <;> simp [hp]
  | append_singleton rest q ih =>
    rw [← List.cons_append, Grouping.record_snoc, ih, updateFlow, clientOf, clientOf, List.findSome?_append]
    cases hrest : (p :: rest).findSome? signal with
    | some client => rfl
    | none =>
      have hlast : [q].findSome? signal = signal q := by
        rw [List.findSome?_cons]
        cases signal q <;> rfl
      rw [hlast]
      cases signal q <;> rfl

theorem clientOf_endpoint {p : FlowPacket} {flow : List FlowPacket} (h : ∀ q ∈ flow, SameFlow p q) :
    clientOf p flow = p.src ∨ clientOf p flow = p.dst := by
  rw [clientOf]
  cases hfound : flow.findSome? signal with
  | none => exact .inl rfl
  | some client =>
    obtain ⟨q, hq, hsignal⟩ := List.exists_of_findSome?_eq_some hfound
    rw [Option.getD_some]
    obtain ⟨⟨hsrc, hdst⟩ | ⟨hsrc, hdst⟩, -⟩ := h q hq
    · rw [hsrc, hdst]
      exact signal_endpoint hsignal
    · rw [hsrc, hdst]
      exact (signal_endpoint hsignal).symm

theorem record_entry (pcapName : Str) {p : FlowPacket} {rest : List FlowPacket} (h : ∀ q ∈ p :: rest, SameFlow p q) :
    (Grouping.record updateFlow (p :: rest)).map (Flow.entry pcapName) = some (flowEntry pcapName p (p :: rest)) := by
  rw [record_updateFlow, Option.map_some, Flow.entry, flowEntry]
  dsimp only
  split_ifs with hclient
  · rw [hclient]
  · rw [(clientOf_endpoint h).resolve_left hclient]

theorem filter_sameFlow {ps : List FlowPacket} {p : FlowPacket} (h : p ∈ firstPackets ps) :
    ∃ rest, ps.filter (SameFlow p) = p :: rest := by
  have hself (q : FlowPacket) : SameFlow q q := canonical_eq_iff.mp rfl
  induction ps with
  | nil => cases h
  | cons q ps ih =>
    rw [firstPackets] at h
    rcases List.mem_cons.mp h with rfl | h
    · exact ⟨ps.filter (SameFlow p), List.filter_cons_of_pos (decide_eq_true (hself p))⟩
    · obtain ⟨hp, hne⟩ := List.mem_filter.mp h
      have hne' : ¬SameFlow p q := by
        intro heq
        exact of_decide_eq_true hne (canonical_eq_iff.mp (canonical_eq_iff.mpr heq).symm)
      obtain ⟨rest, hrest⟩ := ih hp
      exact ⟨rest, by rw [List.filter_cons_of_neg (by simpa using hne'), hrest]⟩

/-- **The entries of a file**: one for each flow, in the order of the first packets, made of the packets of the flow. -/
theorem flowEntries_eq (pcapName : Str) (ps : List FlowPacket) :
    flowEntries pcapName ps = (firstPackets ps).map fun p => flowEntry pcapName p (ps.filter (SameFlow p)) := by
  have hkey (p q : FlowPacket) : canonical q = canonical p ↔ SameFlow p q := by rw [eq_comm, canonical_eq_iff]
  rw [flowEntries, Grouping.values_group, firsts_canonical, List.map_filterMap, ← List.filterMap_eq_map]
  apply List.filterMap_congr
  intro p hp
  obtain ⟨rest, hrest⟩ := filter_sameFlow hp
  have hflow : ∀ q ∈ p :: rest, SameFlow p q := by
    intro q hq
    rw [← hrest] at hq
    exact of_decide_eq_true (List.mem_filter.mp hq).2
  simp only [Function.comp_apply, hkey, hrest]
  exact record_entry pcapName hflow

theorem flowEntry_append (pcapName : Str) (p : FlowPacket) {flow : List FlowPacket}
    (h : ∃ q ∈ flow, (signal q).isSome) (later : List FlowPacket) :
    flowEntry pcapName p (flow ++ later) = flowEntry pcapName p flow := by
  obtain ⟨client, hclient⟩ := Option.isSome_iff_exists.mp (List.findSome?_isSome_iff.mpr h)
  rw [flowEntry, flowEntry, clientOf, clientOf, List.findSome?_append, hclient]
  rfl

theorem pairwise_firstPackets (ps : List FlowPacket) : (firstPackets ps).Pairwise fun p q => ¬SameFlow p q := by
  rw [← firsts_canonical]
  refine (Grouping.pairwise_firsts canonical ps).imp ?_
  intro p q hne hsame
  exact hne (canonical_eq_iff.mpr hsame)

theorem exists_firstPacket {ps : List FlowPacket} {q : FlowPacket} (h : q ∈ ps) :
    ∃ p ∈ firstPackets ps, SameFlow p q := by
  have hkey := (Grouping.mem_map_firsts canonical ps (canonical q)).mpr (List.mem_map_of_mem h)
  obtain ⟨p, hp, heq⟩ := List.mem_map.mp hkey
  rw [firsts_canonical] at hp
  exact ⟨p, hp, canonical_eq_iff.mp heq⟩

/-- **Flow extraction.** Each file gives one entry for each flow of its packets, in the order of the flows' first packets,
and the first packets stand for all flows, each once. An entry is made of the packets of its flow alone: its source is
the client that the first of them with a signal names, else the source of the first packet. Once a packet of the flow
has a signal, no later packet changes the entry. -/
theorem extractPcapFlowFiveTuples_flows (host : Endian) (files : List (Str × Bytes)) :
    (extractPcapFlowFiveTuples host files =
      files.flatMap fun file =>
        (firstPackets (classified host file.2)).map fun p =>
          flowEntry file.1 p ((classified host file.2).filter (SameFlow p))) ∧
    (∀ ps, ((firstPackets ps).Pairwise fun p q => ¬SameFlow p q) ∧ ∀ q ∈ ps, ∃ p ∈ firstPackets ps, SameFlow p q) ∧
    ∀ pcapName p flow later, (∃ q ∈ flow, (signal q).isSome) →
      flowEntry pcapName p (flow ++ later) = flowEntry pcapName p flow := by
  refine ⟨?_, fun ps => ⟨pairwise_firstPackets ps, fun q hq => exists_firstPacket hq⟩, ?_⟩
  · rw [extractPcapFlowFiveTuples]
    simp only [fileFlowEntries_eq, flowEntries_eq]
  · intro pcapName p flow later h
    exact flowEntry_append pcapName p h later

end SocketServer.Capture
