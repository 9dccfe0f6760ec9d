import SocketServer.Capture.Flows

/-!
# The per-file loop of `extract_pcap_flow_five_tuples`, with what can raise

The loop stands inside a `try` whose `except` gives up all flows of the file. Here each operation of it that can raise
does: an index outside of the bytes, a `struct.unpack` of the wrong length, an address of the wrong length. A record
consumes its header at least, so the loop ends.

* `decodePacket_ok` : no packet raises, and it is decoded as `parseFlowPacket` says;
* `flowLoop_ok` : one record keeps the table what the packets so far make of it;
* `decodeFile_ok` : no file raises.
-/

namespace SocketServer.Capture

open Bytes Inet

/-! ### Operations that can raise -/

inductive Raised
  | indexError
  | structError
  | addressError
  deriving DecidableEq, Repr

/-- `s[i]`. -/
def index (s : Bytes) (i : Nat) : Except Raised UInt8 :=
  match s[i]? with
  | some b => .ok b
  | none => .error .indexError

/-- `struct.unpack("!H", s)[0]`. -/
def unpackH (s : Bytes) : Except Raised Nat := if s.length = 2 then .ok (decode .big s) else .error .structError

/-- `struct.unpack("!HH", s)`. -/
def unpackHH (s : Bytes) : Except Raised (Nat × Nat) :=
  if s.length = 4 then .ok (decode .big (slice s 0 2), decode .big (slice s 2 4)) else .error .structError

/-- `struct.unpack('=IIII', s)`. -/
def unpackIIII (host : Endian) (s : Bytes) : Except Raised RecordHeader :=
  if s.length = 16 then .ok (unpackHeader host s) else .error .structError

/-- The text of an address, by `inet_ntoa` or `inet_ntop`. -/
def addressText (text : Bytes → Option Str) (s : Bytes) : Except Raised Str :=
  match text s with
  | some ip => .ok ip
  | none => .error .addressError

/-! ### The loop -/

/-- `proto`, `ip_src`, `ip_dst` and `trans`; `none` is `continue`. -/
def decodeNetwork (ethType : Nat) (payload : Bytes) : Except Raised (Option (Nat × Str × Str × Bytes)) :=
  if ethType = 0x0800 then
    if payload.length < 20 then .ok none
    else do
      let first ← index payload 0
      let proto ← index payload 9
      let ipSrc ← addressText inetNtoa (slice payload 12 16)
      let ipDst ← addressText inetNtoa (slice payload 16 20)
      .ok (some (proto.toNat, ipSrc, ipDst, payload.drop (first.toNat % 16 * 4)))
  else if ethType = 0x86DD then
    if payload.length < 40 then .ok none
    else do
      let proto ← index payload 6
      let ipSrc ← addressText inetNtop6 (slice payload 8 24)
      let ipDst ← addressText inetNtop6 (slice payload 24 40)
      .ok (some (proto.toNat, ipSrc, ipDst, payload.drop 40))
  else .ok none

/-- `flags`. -/
def decodeFlags (proto : Nat) (trans : Bytes) : Except Raised Nat :=
  if proto = 6 ∧ 13 < trans.length then do
    let flags ← index trans 13
    .ok flags.toNat
  else .ok 0

/-- `sport_s`, `dport_s` and `flags`; `none` is `continue`. -/
def decodePorts (type : ProtoType) (proto : Nat) (trans : Bytes) : Except Raised (Option (Str × Str × Nat)) :=
  if type = .icmp then .ok (some (['0'], ['0'], 0))
  else if trans.length < 4 then .ok none
  else do
    let (sport, dport) ← unpackHH (slice trans 0 4)
    let flags ← decodeFlags proto trans
    .ok (some (natText sport, natText dport, flags))

/-- The packet behind the network header; `none` is `continue`. -/
def decodeTransport (proto : Nat) (ipSrc ipDst : Str) (trans : Bytes) : Except Raised (Option FlowPacket) :=
  match protoType proto with
  | none => .ok none
  | some type => do
    match ← decodePorts type proto trans with
    | none => .ok none
    | some (sport, dport, flags) => .ok (some ⟨⟨ipSrc, sport⟩, ⟨ipDst, dport⟩, type, proto, flags, trans⟩)

/-- The packet behind the link layer. -/
def decodePayload (ethType : Nat) (payload : Bytes) : Except Raised (Option FlowPacket) := do
  match ← decodeNetwork ethType payload with
  | none => .ok none
  | some (proto, ipSrc, ipDst, segment) => decodeTransport proto ipSrc ipDst segment

/-- The packet in `pkt_data`; `none` is `continue`. -/
def decodePacket (pktData : Bytes) : Except Raised (Option FlowPacket) :=
  if pktData.length < 14 then .ok none
  else do
    let ethType ← unpackH (slice pktData 12 14)
    let payload := pktData.drop 14
    if ethType = 0x8100 then
      if payload.length < 4 then .ok none
      else do
        let ethType ← unpackH (slice payload 2 4)
        decodePayload ethType (payload.drop 4)
    else decodePayload ethType payload

/-- `signaled_client`. -/
def decodeSignal (p : FlowPacket) : Except Raised (Option Endpoint) :=
  match handshakeClient p with
  | some client => .ok (some client)
  | none =>
    if p.proto = 6 ∧ 14 ≤ p.trans.length then do
      let offset ← index p.trans 12
      let httpPayload := p.trans.drop (offset.toNat / 16 * 4)
      if httpRequestMethods.any (·.isPrefixOf httpPayload) then .ok (some p.src)
      else if httpResponse.isPrefixOf httpPayload then .ok (some p.dst)
      else .ok none
    else .ok none

/-- The entry of a flow after a packet of it. -/
def decodeFlow (found : Option Flow) (p : FlowPacket) : Except Raised Flow :=
  let flow := found.getD ⟨p.src, p.dst, p.src, false, p.protoType⟩
  if flow.finalized then .ok flow
  else do
    match ← decodeSignal p with
    | some client => .ok { flow with client := client, finalized := true }
    | none => .ok flow

/-- What is done with `pkt_data`. -/
def decodeRecord (flows : Dict Canonical Flow) (pktData : Bytes) : Except Raised (Dict Canonical Flow) := do
  match ← decodePacket pktData with
  | none => .ok flows
  | some p =>
    let flow ← decodeFlow (flows.get (canonical p)) p
    .ok (flows.put (canonical p) flow)

/-- The loop over the records of a file, from here on. -/
def flowLoop (host : Endian) (f : Bytes) (flows : Dict Canonical Flow) : Except Raised (Dict Canonical Flow) :=
  let pktHdr := f.take 16
  if pktHdr.length < 16 then .ok flows
  else do
    let header ← unpackIIII host pktHdr
    let pktData := (f.drop 16).take header.inclLen
    if pktData.length < header.inclLen then .ok flows
    else do
      let flows ← decodeRecord flows pktData
      flowLoop host (f.drop (16 + header.inclLen)) flows
termination_by f.length
decreasing_by
  rename_i hhdr _
  rw [List.length_take] at hhdr
  rw [List.length_drop]
  omega

/-- The body of the `try`: the entries of a file. -/
def decodeFile (host : Endian) (pcapName : Str) (file : Bytes) : Except Raised (List FlowEntry) := do
  let flows ← flowLoop host (file.drop 24) []
  .ok (flows.values.map (Flow.entry pcapName))

/-! ### Within their bounds -/

theorem index_of_lt {s : Bytes} {i : Nat} (h : i < s.length) : index s i = .ok (s.getD i 0) := by
  rw [index, List.getD_eq_getElem?_getD, List.getElem?_eq_getElem h]
  rfl

theorem unpackH_slice {s : Bytes} {i : Nat} (h : i + 2 ≤ s.length) :
    unpackH (slice s i (i + 2)) = .ok (decode .big (slice s i (i + 2))) := by
  have hlen : (slice s i (i + 2)).length = 2 := by
    rw [slice_length]
    omega
  rw [unpackH, if_pos hlen]

theorem unpackHH_slice {s : Bytes} (h : 4 ≤ s.length) :
    unpackHH (slice s 0 4) = .ok (decode .big (slice s 0 2), decode .big (slice s 2 4)) := by
  have hlen : (slice s 0 4).length = 4 := by
    rw [slice_length]
    omega
  have hfirst : slice (slice s 0 4) 0 2 = slice s 0 2 := by
    simp only [slice, List.drop_zero, List.take_take]
    rfl
  have hsecond : slice (slice s 0 4) 2 4 = slice s 2 4 := by
    simp only [slice, List.drop_zero, List.drop_take, List.take_take]
    rfl
  rw [unpackHH, if_pos hlen, hfirst, hsecond]

theorem addressText_ok {text : Bytes → Option Str} {s : Bytes} {ip : Str} (h : text s = some ip) :
    addressText text s = .ok ip := by
  rw [addressText, h]

/-! ### No packet raises -/

theorem decodeFlags_ok (proto : Nat) (trans : Bytes) :
    decodeFlags proto trans = .ok (if proto = 6 then (trans.getD 13 0).toNat else 0) := by
  rw [decodeFlags]
  by_cases hproto : proto = 6
  · rw [if_pos hproto]
    split_ifs with h
    · rw [index_of_lt h.2]
      rfl
    · rw [List.getD_eq_getElem?_getD, List.getElem?_eq_none (by omega)]
      rfl
  · rw [if_neg hproto, if_neg fun h => hproto h.1]

theorem decodePorts_ok (type : ProtoType) (proto : Nat) (trans : Bytes) :
    decodePorts type proto trans = .ok (portsAndFlags type proto trans) := by
  rw [decodePorts, portsAndFlags]
  by_cases hicmp : type = .icmp
  · rw [if_pos hicmp, if_pos hicmp]
  · rw [if_neg hicmp, if_neg hicmp]
    by_cases hshort : trans.length < 4
    · rw [if_pos hshort, if_pos hshort]
    · rw [if_neg hshort, if_neg hshort, unpackHH_slice (Nat.le_of_not_lt hshort), decodeFlags_ok]
      rfl

theorem decodeTransport_ok (proto : Nat) (ipSrc ipDst : Str) (trans : Bytes) :
    decodeTransport proto ipSrc ipDst trans = .ok (classify proto ipSrc ipDst trans) := by
  rw [decodeTransport, classify]
  cases protoType proto with
  | none => rfl
  | some type =>
    dsimp only
    rw [decodePorts_ok]
    change _ = Except.ok ((portsAndFlags type proto trans).bind _)
    cases portsAndFlags type proto trans with
    | none => rfl
    | some ports => rfl

theorem decodePayload_ok (ethType : Nat) (payload : Bytes) :
    ∃ packet, parseNetwork ethType payload = some packet ∧ decodePayload ethType payload = .ok packet := by
  rw [parseNetwork, decodePayload, decodeNetwork]
  split_ifs with h4 hshort h6 hshort
  · exact ⟨none, rfl, rfl⟩
  · obtain ⟨src, hsrc⟩ := inetNtoa_slice (s := payload) (i := 12) (by omega)
    obtain ⟨dst, hdst⟩ := inetNtoa_slice (s := payload) (i := 16) (by omega)
    refine ⟨_, by rw [hsrc, hdst]; rfl, ?_⟩
    rw [index_of_lt (by omega), index_of_lt (by omega), addressText_ok hsrc, addressText_ok hdst]
    exact decodeTransport_ok ..
  · exact ⟨none, rfl, rfl⟩
  · obtain ⟨src, hsrc⟩ := inetNtop6_slice (s := payload) (i := 8) (by omega)
    obtain ⟨dst, hdst⟩ := inetNtop6_slice (s := payload) (i := 24) (by omega)
    refine ⟨_, by rw [hsrc, hdst]; rfl, ?_⟩
    rw [index_of_lt (by omega), addressText_ok hsrc, addressText_ok hdst]
    exact decodeTransport_ok ..
  · exact ⟨none, rfl, rfl⟩

/-- **No packet raises**, and each is decoded as it is parsed. -/
theorem decodePacket_ok (pktData : Bytes) :
    ∃ packet, parseFlowPacket pktData = some packet ∧ decodePacket pktData = .ok packet := by
  rw [parseFlowPacket, decodePacket]
  dsimp only
  by_cases hshort : pktData.length < 14
  · rw [if_pos hshort, if_pos hshort]
    exact ⟨none, rfl, rfl⟩
  · rw [if_neg hshort, if_neg hshort, unpackH_slice (by omega)]
    simp only [bind, Except.bind]
    split_ifs with hvlan hvlanShort
    · exact ⟨none, rfl, rfl⟩
    · rw [unpackH_slice (by omega)]
      exact decodePayload_ok ..
    · exact decodePayload_ok ..

theorem decodeSignal_ok (p : FlowPacket) : decodeSignal p = .ok (signal p) := by
  rw [decodeSignal, signal]
  cases handshakeClient p with
  | some client => rfl
  | none =>
    dsimp only
    rw [Option.orElse_none, httpClient]
    by_cases h : p.proto = 6 ∧ 14 ≤ p.trans.length
    · rw [if_pos h, if_pos h, index_of_lt (by omega)]
      simp only [bind, Except.bind]
      split_ifs <;> rfl
    · rw [if_neg h, if_neg h]

theorem decodeFlow_ok (found : Option Flow) (p : FlowPacket) : decodeFlow found p = .ok (updateFlow found p) := by
  rw [decodeFlow, updateFlow]
  split_ifs
  · rfl
  · rw [decodeSignal_ok]
    cases signal p with
    | none => rfl
    | some client => rfl

/-- The table after a packet. -/
def withPacket (flows : Dict Canonical Flow) (p : FlowPacket) : Dict Canonical Flow :=
  flows.put (canonical p) (updateFlow (flows.get (canonical p)) p)

theorem decodeRecord_ok (flows : Dict Canonical Flow) (pktData : Bytes) :
    decodeRecord flows pktData = .ok ((parseFlowPacket pktData).join.toList.foldl withPacket flows) := by
  obtain ⟨packet, hparse, hdecode⟩ := decodePacket_ok pktData
  rw [decodeRecord, hdecode, hparse]
  cases packet with
  | none => rfl
  | some p =>
    change (decodeFlow (flows.get (canonical p)) p >>= _) = _
    rw [decodeFlow_ok]
    rfl

/-! ### No file raises -/

theorem flowLoop_ok (host : Endian) (f : Bytes) (flows : Dict Canonical Flow) :
    flowLoop host f flows =
      .ok ((((readLoop (completeRecord host) f).1.map Record.data).filterMap
        fun pktData => (parseFlowPacket pktData).join).foldl withPacket flows) := by
  induction hn : f.length using Nat.strong_induction_on generalizing f flows with
  | _ n ih =>
    rw [flowLoop, readLoop_eq (consuming_completeRecord host), completeRecord]
    dsimp only
    by_cases hhdr : (f.take 16).length < 16
    · rw [if_pos hhdr, if_pos hhdr]
      rfl
    · have hlen : (f.take 16).length = 16 := by
        rw [List.length_take] at hhdr ⊢
        omega
      rw [if_neg hhdr, if_neg hhdr, unpackIIII, if_pos hlen]
      simp only [bind, Except.bind]
      split_ifs with hdata
      · rfl
      · have hless : (f.drop (16 + (unpackHeader host (f.take 16)).inclLen)).length < n := by
          rw [List.length_take] at hlen
          rw [List.length_drop]
          omega
        rw [decodeRecord_ok]
        dsimp only
        rw [ih _ hless _ _ rfl, List.map_cons, List.filterMap_cons]
        dsimp only
        cases (parseFlowPacket ((f.drop 16).take (unpackHeader host (f.take 16)).inclLen)).join with
        | none => rfl
        | some p => rfl

/-- **No file raises**, whatever its bytes: the loop ends, and its entries are those of the flows of the file. -/
theorem decodeFile_ok (host : Endian) (pcapName : Str) (file : Bytes) :
    decodeFile host pcapName file = .ok (fileFlowEntries host pcapName file) := by
  rw [decodeFile, flowLoop_ok, fileFlowEntries_eq]
  rfl

end SocketServer.Capture
