import SocketServer.Capture.Sorting
import SocketServer.Replay.FastPath
import SocketServer.Replay.Rewriting

/-!
# Captures that break off

A capture that was cut off ends with a part of a record. `_sort_pcap_by_timestamp` and `extract_pcap_flow_five_tuples`
stop there. `replay_file` unpacks a header that is too short, which raises, and takes whatever there is of the data for
the packet.

* `replayRecords_cutFile` : what `replay_file` reads of such a file;
* `replayLoop_sent` : what it sends of the records that it has read;
* `replayFile_cutFile_iff` : when it returns and sends exactly the complete records.
-/

namespace SocketServer.Replay

open Bytes Inet Capture

/-! ### Reading -/

/-- A global header, complete records, and the first `k` bytes of one more. -/
def cutFile (header : Bytes) (rs : List RawRecord) (raw : RawRecord) (k : Nat) : Bytes :=
  header ++ (rs.flatMap (RawRecord.bytes .little) ++ (raw.bytes .little).take k)

/-- A record as `replay_file` reads it, with these bytes as its data. -/
def rawPacket (divisor : Nat) (raw : RawRecord) (data : Bytes) : ReplayRecord :=
  ⟨raw.tsSec, raw.tsFrac, divisor, raw.data.length, raw.origLen, data⟩

/-- The complete records as `replay_file` reads them. -/
def completePackets (header : Bytes) (rs : List RawRecord) : List ReplayRecord :=
  rs.map fun r => rawPacket (tsDivisor (decode .little (header.take 4))) r r.data

theorem replayTurn_header (divisor : Nat) {raw : RawRecord} (h : raw.Fits) (rest : Bytes) :
    replayTurn .little divisor (raw.header .little ++ rest) =
      .item (rawPacket divisor raw (rest.take raw.data.length)) (rest.drop raw.data.length) := by
  have hread := unpackHeader_rawHeader .little h
  have htake : (raw.header .little ++ rest).take 16 = raw.header .little := List.take_left' (raw.header_length _)
  have hdrop : (raw.header .little ++ rest).drop 16 = rest := List.drop_left' (raw.header_length _)
  have hne : raw.header .little ≠ [] := List.ne_nil_of_length_pos (by rw [raw.header_length]; decide)
  simp only [replayTurn, htake, hdrop, raw.header_length, hread, ← List.drop_drop, Nat.lt_irrefl, hne, if_false]
  rfl

theorem replayTurn_raw (divisor : Nat) {raw : RawRecord} (h : raw.Fits) (s : Bytes) :
    replayTurn .little divisor (raw.bytes .little ++ s) = .item (rawPacket divisor raw raw.data) s := by
  rw [RawRecord.bytes, List.append_assoc, replayTurn_header divisor h, List.take_left, List.drop_left]

/-- **A record that breaks off**: in its header, reading raises; in its data, what there is becomes a packet. -/
theorem replayRecords_cutFile {header : Bytes} (hheader : header.length = 24) {rs : List RawRecord}
    (hfits : ∀ r ∈ rs, r.Fits) {raw : RawRecord} (hraw : raw.Fits) {k : Nat} (hpos : 0 < k)
    (hk : k < (raw.bytes .little).length) :
    replayRecords .little (cutFile header rs raw k) =
      if k < 16 then (completePackets header rs, some .unpackHeader)
      else (completePackets header rs ++
        [rawPacket (tsDivisor (decode .little (header.take 4))) raw (raw.data.take (k - 16))], none) := by
  have hlen := raw.bytes_length .little
  have hcut : (cutFile header rs raw k).take 24 = header := List.take_left' hheader
  have hbody : (cutFile header rs raw k).drop 24 =
      rs.flatMap (RawRecord.bytes .little) ++ (raw.bytes .little).take k := List.drop_left' hheader
  simp only [replayRecords, hcut, hbody, hheader, Nat.lt_irrefl, if_false]
  rw [completePackets]
  generalize tsDivisor (decode .little (header.take 4)) = divisor
  rw [readLoop_flatMap_append (consuming_replayTurn .little divisor)
    (fun r hr => replayTurn_raw divisor (hfits r hr)) ((raw.bytes .little).take k), readLoop_eq
    (consuming_replayTurn .little divisor)]
  have hcutLen : ((raw.bytes .little).take k).length = k := by rw [List.length_take]; omega
  split_ifs with hshort
  · have hturn : replayTurn .little divisor ((raw.bytes .little).take k) = .fail .unpackHeader := by
      have htake : ((raw.bytes .little).take k).take 16 = (raw.bytes .little).take k :=
        List.take_of_length_le (by omega)
      have hne : (raw.bytes .little).take k ≠ [] := List.ne_nil_of_length_pos (by omega)
      simp only [replayTurn, htake, hne, hcutLen, hshort, if_false, if_true]
    rw [hturn]
    dsimp only
    rw [List.append_nil]
  · have htake : (raw.bytes .little).take k = raw.header .little ++ raw.data.take (k - 16) := by
      rw [RawRecord.bytes, List.take_append, raw.header_length, List.take_of_length_le]
      rw [raw.header_length]
      omega
    have hdata : (raw.data.take (k - 16)).length ≤ raw.data.length := by rw [List.length_take]; omega
    have hend : readLoop (replayTurn .little divisor) [] = ([], none) := rfl
    rw [htake, replayTurn_header divisor hraw, List.take_of_length_le hdata, List.drop_eq_nil_of_le hdata]
    dsimp only
    rw [hend]

/-! ### Sending -/

/-- The VLAN of a direction. -/
def Settings.vlan (c : Settings) (direction : Direction) : Option Int :=
  match direction with
  | .uplink => c.uplinkVlan
  | .downlink => c.downlinkVlan

/-- The VLAN of a direction fits the tag, if there is one. -/
def Settings.tags (c : Settings) (direction : Direction) : Bool := (c.vlan direction).all portFits

/-- The direction in which a packet is sent. -/
def Settings.directionOf (c : Settings) (flows : Flows) (eth : Ethernet) (ip : Ip) : Direction :=
  if c.directionless && c.noTupleModification && !c.forceBuildFlow then .uplink
  else
    let transport := parseTransport ip.proto ip.payload
    (c.hints.getDirection flows (getFiveTuple eth ip.src ip.dst transport.sport transport.dport ip.proto) ip.proto
      transport.flags).1

/-- `x` is what is sent of a packet in its direction: the rewritten and tagged frame on the socket of the direction. -/
def Settings.Sends (c : Settings) (x : Socket × Bytes) (p : Direction × ReplayRecord) : Prop :=
  x.1 = c.socket p.1 ∧ ∃ flow, c.sentPacket p.2.pktData flow p.1 = some x.2

/-- The records from which a packet is parsed, each with the direction that its packet gets in its turn. -/
def Settings.directed (c : Settings) (stamp : ReplayRecord → Nat × Nat) :
    ReplayState × Nat → List ReplayRecord → List (Direction × ReplayRecord)
  | _, [] => []
  | x, r :: records =>
    ((parsePacket r.pktData).map fun (eth, ip) => (c.directionOf x.1.flows eth ip, r)).toList ++
      c.directed stamp (c.replayPacket stamp x r) records

theorem sentPacket_isSome (c : Settings) (rawPkt : Bytes) (flow : Option FlowInfo) (direction : Direction) :
    (c.sentPacket rawPkt flow direction).isSome = c.tags direction := by
  have htag (data : Bytes) (v : Option Int) : (addOrModifyVlan data v).isSome = v.all portFits := by
    cases v with
    | none => rfl
    | some vid =>
      simp only [addOrModifyVlan, packInt_port, Option.all_some]
      cases portFits vid with
      | false => rfl
      | true =>
        simp only [if_true, Option.bind_eq_bind, Option.bind_some]
        split_ifs <;> rfl
  cases direction with
  | uplink => exact htag _ _
  | downlink => exact htag _ _

theorem transmit_sent (c : Settings) (stamp : ReplayRecord → Nat × Nat) (s : ReplayState) (r : ReplayRecord)
    (direction : Direction) (pkt : Bytes) :
    (c.transmit stamp s r direction pkt).sent = s.sent ++ [(c.socket direction, pkt)] := by
  unfold Settings.transmit
  dsimp only
  cases c.cache direction ⟨pkt, (stamp r).1, (stamp r).2⟩ s.writers with
  | none => rfl
  | some w => cases direction <;> rfl

section

variable (c : Settings) (stamp : ReplayRecord → Nat × Nat)

theorem directed_append (x : ReplayState × Nat) (records more : List ReplayRecord) :
    c.directed stamp x (records ++ more) =
      c.directed stamp x records ++ c.directed stamp (records.foldl (c.replayPacket stamp) x) more := by
  induction records generalizing x with
  | nil => rfl
  | cons r records ih =>
    rw [List.cons_append, Settings.directed, Settings.directed, ih, List.append_assoc]
    rfl

theorem directed_records (x : ReplayState × Nat) (records : List ReplayRecord) :
    (c.directed stamp x records).map Prod.snd = records.filter fun r => (parsePacket r.pktData).isSome := by
  induction records generalizing x with
  | nil => rfl
  | cons r records ih =>
    rw [Settings.directed, List.map_append, ih]
    rcases hparsed : parsePacket r.pktData with _ | ⟨eth, ip⟩
    · rw [List.filter_cons_of_neg (by rw [hparsed]; decide)]
      rfl
    · rw [List.filter_cons_of_pos (by rw [hparsed]; rfl)]
      rfl

theorem sendPacket_sent (s : ReplayState) (r : ReplayRecord) (direction : Direction) (key : Option FiveTuple) :
    if c.tags direction then
      ∃ x, c.Sends x (direction, r) ∧ (c.sendPacket stamp s r direction key).1.sent = s.sent ++ [x]
    else (c.sendPacket stamp s r direction key).1.sent = s.sent := by
  have hsome := sentPacket_isSome c r.pktData (key.bind s.flows.flowTable.lookup) direction
  rw [← hsome]
  unfold Settings.sendPacket
  dsimp only
  cases hpkt : c.sentPacket r.pktData (key.bind s.flows.flowTable.lookup) direction with
  | none => rfl
  | some pkt => exact ⟨(c.socket direction, pkt), ⟨rfl, _, hpkt⟩, transmit_sent c stamp _ r direction pkt⟩

theorem dispatch_sent (s : ReplayState) (r : ReplayRecord) (eth : Ethernet) (ip : Ip) :
    if c.tags (c.directionOf s.flows eth ip) then
      ∃ x, c.Sends x (c.directionOf s.flows eth ip, r) ∧ (c.dispatch stamp s r eth ip).1.sent = s.sent ++ [x]
    else (c.dispatch stamp s r eth ip).1.sent = s.sent := by
  unfold Settings.dispatch Settings.directionOf
  by_cases hfast : (c.directionless && c.noTupleModification && !c.forceBuildFlow) = true
  · rw [if_pos hfast, if_pos hfast]
    exact sendPacket_sent c stamp s r .uplink none
  · rw [if_neg hfast, if_neg hfast]
    exact sendPacket_sent c stamp { s with flows := _ } r _ _

theorem replayPacket_sent (x : ReplayState × Nat) (r : ReplayRecord) :
    ∃ frames, (c.replayPacket stamp x r).1.sent = x.1.sent ++ frames ∧
      List.Forall₂ c.Sends frames ((c.directed stamp x [r]).filter fun p => c.tags p.1) := by
  rw [Settings.replayPacket, Settings.directed, Settings.directed, List.append_nil]
  rcases parsePacket r.pktData with _ | ⟨eth, ip⟩
  · exact ⟨[], (List.append_nil _).symm, .nil⟩
  have hdispatch := dispatch_sent c stamp x.1 r eth ip
  dsimp only [Option.map_some, Option.toList_some]
  cases htags : c.tags (c.directionOf x.1.flows eth ip) with
  | false =>
    rw [htags] at hdispatch
    rw [List.filter_cons_of_neg (by simp [htags])]
    exact ⟨[], hdispatch.trans (List.append_nil _).symm, .nil⟩
  | true =>
    rw [htags, if_pos rfl] at hdispatch
    obtain ⟨y, hy, hsent⟩ := hdispatch
    have hkept : [(c.directionOf x.1.flows eth ip, r)].filter (fun p => c.tags p.1) = _ :=
      List.filter_cons_of_pos htags
    rw [hkept]
    exact ⟨[y], hsent, .cons hy .nil⟩

/-- **What is sent of records**: one frame of each packet that is parsed and whose VLAN fits, in their order. -/
theorem replayLoop_sent (x : ReplayState × Nat) (records : List ReplayRecord) :
    ∃ frames, (records.foldl (c.replayPacket stamp) x).1.sent = x.1.sent ++ frames ∧
      List.Forall₂ c.Sends frames ((c.directed stamp x records).filter fun p => c.tags p.1) := by
  induction records generalizing x with
  | nil => exact ⟨[], (List.append_nil _).symm, .nil⟩
  | cons r records ih =>
    obtain ⟨first, hfirst, hsends⟩ := replayPacket_sent c stamp x r
    obtain ⟨frames, hsent, hframes⟩ := ih (c.replayPacket stamp x r)
    rw [← List.singleton_append, directed_append, List.filter_append]
    refine ⟨first ++ frames, ?_, List.rel_append hsends hframes⟩
    rw [List.singleton_append, List.foldl_cons, hsent, hfirst, List.append_assoc]

theorem tags_of_sends {frames : List (Socket × Bytes)} {packets : List (Direction × ReplayRecord)}
    (h : List.Forall₂ c.Sends frames packets) : ∀ p ∈ packets, c.tags p.1 = true := by
  induction h with
  | nil => exact List.forall_mem_nil _
  | @cons x p _ _ hx _ ih =>
    obtain ⟨-, flow, hpkt⟩ := hx
    refine List.forall_mem_cons.mpr ⟨?_, ih⟩
    rw [← sentPacket_isSome c p.2.pktData flow p.1, hpkt]
    rfl

/-- **Captures that break off.** `replay_file` returns and sends one frame of each complete record that carries a packet,
in their order, and nothing else, exactly when the header of the unfinished record is complete, the VLANs of the
complete packets fit, and what there is of the unfinished one is not sent: no packet is parsed from it, or its VLAN does
not fit. -/
theorem replayFile_cutFile_iff (s : ReplayState) {header : Bytes} (hheader : header.length = 24) {rs : List RawRecord}
    (hfits : ∀ r ∈ rs, r.Fits) {raw : RawRecord} (hraw : raw.Fits) {k : Nat} (hpos : 0 < k)
    (hk : k < (raw.bytes .little).length) :
    let out := c.replayFile stamp .little s (cutFile header rs raw k)
    let records := completePackets header rs
    let complete := c.directed stamp (s, 0) records
    ((∃ n, out.2 = .ok n) ∧ (∃ frames, out.1.sent = s.sent ++ frames ∧ List.Forall₂ c.Sends frames complete) ↔
        16 ≤ k ∧ (∀ p ∈ complete, c.tags p.1 = true) ∧
          ∀ eth ip, parsePacket (raw.data.take (k - 16)) = some (eth, ip) →
            c.tags (c.directionOf (c.replayLoop stamp s records).1.flows eth ip) = false) ∧
      complete.map Prod.snd = records.filter fun r => (parsePacket r.pktData).isSome := by
  intro out records complete
  refine ⟨?_, directed_records c stamp (s, 0) records⟩
  have hread := replayRecords_cutFile hheader hfits hraw hpos hk
  have hout : out = c.replayFile stamp .little s (cutFile header rs raw k) := rfl
  rw [Settings.replayFile, hread] at hout
  rcases Nat.lt_or_ge k 16 with hshort | hlong
  · rw [if_pos hshort] at hout
    rw [hout]
    refine iff_of_false ?_ fun h => by omega
    rintro ⟨⟨n, hn⟩, -⟩
    cases hn
  rw [if_neg (by omega)] at hout
  generalize hlast : rawPacket (tsDivisor (decode .little (header.take 4))) raw (raw.data.take (k - 16)) = last at hout
  have hdata : last.pktData = raw.data.take (k - 16) := by rw [← hlast]; rfl
  -- what is sent of all that was read
  obtain ⟨sent, hsent, hsends⟩ := replayLoop_sent c stamp (s, 0) (records ++ [last])
  have hsent' : out.1.sent = s.sent ++ sent := by
    rw [hout]
    exact hsent
  rw [directed_append, List.filter_append, ← Settings.replayLoop] at hsends
  have hunsent : (c.directed stamp (c.replayLoop stamp s records) [last]).filter (fun p => c.tags p.1) = [] ↔
      ∀ eth ip, parsePacket (raw.data.take (k - 16)) = some (eth, ip) →
        c.tags (c.directionOf (c.replayLoop stamp s records).1.flows eth ip) = false := by
    rw [Settings.directed, Settings.directed, List.append_nil, hdata]
    rcases parsePacket (raw.data.take (k - 16)) with _ | ⟨eth, ip⟩
    · exact iff_of_true rfl fun eth ip h => by cases h
    · simp [Settings.replayLoop]
  rw [← hunsent, and_iff_right hlong]
  constructor
  · rintro ⟨-, frames, hframes, hcomplete⟩
    obtain rfl : sent = frames := List.append_cancel_left (hsent'.symm.trans hframes)
    have htags := tags_of_sends c hcomplete
    refine ⟨htags, List.eq_nil_of_length_eq_zero ?_⟩
    have hlength := hsends.length_eq
    rw [List.length_append, List.filter_eq_self.mpr htags, hcomplete.length_eq] at hlength
    omega
  · rintro ⟨htags, hnil⟩
    rw [hnil, List.append_nil, List.filter_eq_self.mpr htags] at hsends
    have hok : out.2 = .ok (c.replayLoop stamp s (records ++ [last])).2 := by
      rw [hout]
      rfl
    exact ⟨⟨_, hok⟩, sent, hsent', hsends⟩

end

/-- A global header of microseconds, in little-endian order. -/
def headerUs : Bytes := encode .little 4 pcapMagicUsLe ++ List.replicate 20 0

/-- A record with a SYN. -/
def synRecord : RawRecord := ⟨1, 2, synFrame.length, synFrame⟩

/-- A replay on one wire of a complete SYN and the first `k` bytes of another one. -/
def replayCut (k : Nat) : ReplayState × Except ReplayError Nat :=
  oneWire.replayFile (fun r => (r.tsSec, r.tsFrac)) .little freshState (cutFile headerUs [synRecord] synRecord k)

/-- The complete SYN, in the direction that it gets. -/
def completeSyn : List (Direction × ReplayRecord) :=
  oneWire.directed (fun r => (r.tsSec, r.tsFrac)) (freshState, 0) (completePackets headerUs [synRecord])

theorem replayFile_cutFile_twenty :
    (∃ n, (replayCut 20).2 = .ok n) ∧
      ∃ frames, (replayCut 20).1.sent = freshState.sent ++ frames ∧ List.Forall₂ oneWire.Sends frames completeSyn := by
  have hfits : synRecord.Fits := ⟨by decide, by decide, by decide, by decide⟩
  have hparsed : parsePacket (synRecord.data.take (20 - 16)) = none := by decide +kernel
  refine (replayFile_cutFile_iff oneWire (fun r => (r.tsSec, r.tsFrac)) freshState (by decide)
    (fun r hr => List.mem_singleton.mp hr ▸ hfits) hfits (by decide) (by decide)).1.mpr ⟨by decide, ?_, ?_⟩
  · rintro ⟨_ | _, r⟩ - <;> rfl
  · simp [hparsed]

/-- Three bytes of the second header raise; sixteen and fifty bytes of its data are sent as a packet. -/
theorem replayFile_cutFile_fails :
    (replayCut 3).2 = .error .unpackHeader ∧
      ¬ ∃ frames, (replayCut 66).1.sent = freshState.sent ++ frames ∧ List.Forall₂ oneWire.Sends frames completeSyn := by
  refine ⟨by decide +kernel, ?_⟩
  rintro ⟨frames, hsent, hframes⟩
  have hlength := congrArg List.length hsent
  rw [List.length_append, hframes.length_eq] at hlength
  exact absurd hlength (by decide +kernel)

end SocketServer.Replay
