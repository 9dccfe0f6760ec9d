import Mathlib.Combinatorics.Enumerative.DoubleCounting
import SocketServer.Replay.Rewriting
import SocketServer.Replay.Wire

/-!
# Conversations through a replay

A conversation is a five-tuple with its reverse. The forced fields are meant for the uplink, and `modify_packet` puts
them the other way round into the packets of the downlink, so that what were the two sides of a conversation should
still be the two sides of one on the wire.

* `Replayer.rewriteKey` : what the forced fields make of a five-tuple, which goes with its reversal
  (`rewriteKey_reversed`);
* `frameKey_sent` : the frames sent, with their tags, are the frames of the rewritten five-tuples;
* `replayFiles_conversations` : so the packets of one five-tuple stay together, and the two sides of a conversation stay
  the two sides of one, if the directions are told apart;
* `replayFiles_flows` : a replay of what was sent finds no more flows than the replay itself.
-/

namespace SocketServer.Replay

open Bytes Inet Capture

/-! ### Keys -/

/-- The five-tuple of a frame. -/
def frameKey (frame : Bytes) : Option FiveTuple := (flowPacket frame).map FlowPacket.key

/-- An address as `inet_ntoa` writes it. -/
def canonical (addr : Str) : Str := ((inetAton addr).map dottedQuad).getD addr

/-- The five-tuple with the forced fields where they are given, the other way round for downlink. -/
def Replayer.rewriteKey (r : Replayer) (direction : Direction) (key : FiveTuple) : FiveTuple :=
  match direction with
  | .uplink =>
    { key with
      ipSrc := ((given r.forceIpSrc).map canonical).getD key.ipSrc
      ipDst := ((given r.forceIpDst).map canonical).getD key.ipDst
      sport := ((nonzero r.forceSport).map Int.toNat).or key.sport
      dport := ((nonzero r.forceDport).map Int.toNat).or key.dport }
  | .downlink =>
    { key with
      ipSrc := ((given r.forceIpDst).map canonical).getD key.ipSrc
      ipDst := ((given r.forceIpSrc).map canonical).getD key.ipDst
      sport := ((nonzero r.forceDport).map Int.toNat).or key.sport
      dport := ((nonzero r.forceSport).map Int.toNat).or key.dport }

/-- **Rewriting goes with reversal**: the reverse of a rewritten key is rewritten from the reverse, for the other
direction. -/
theorem rewriteKey_reversed (r : Replayer) (direction : Direction) (key : FiveTuple) :
    (r.rewriteKey direction key).reversed = r.rewriteKey direction.opposite key.reversed := by
  cases direction <;> rfl

theorem rewriteKey_of_noTuple {r : Replayer} (h : r.noTupleModification = true) (direction : Direction)
    (key : FiveTuple) : r.rewriteKey direction key = key := by
  simp only [Replayer.noTupleModification, Bool.and_eq_true, Option.isNone_iff_eq_none] at h
  obtain ⟨⟨⟨hsrc, hdst⟩, hsport⟩, hdport⟩ := h
  cases direction <;> simp [Replayer.rewriteKey, hsrc, hdst, hsport, hdport, given, nonzero]

/-! ### The key of a packet -/

/-- The five-tuple of a TCP segment or UDP datagram over IPv4 in the frame `f`. -/
def packetKey (f ip : Bytes) : FiveTuple :=
  { macSrc := slice f 6 12
    macDst := slice f 0 6
    ipSrc := (tupleOf ip).src
    ipDst := (tupleOf ip).dst
    sport := some (tupleOf ip).sport.toNat
    dport := some (tupleOf ip).dport.toNat
    proto := if protocol ip = 6 then .tcp else .udp }

theorem frameKey_of_packet {f : Bytes} (heth : 14 ≤ f.length) (htype : etherType f = 0x0800)
    (h : TransportPacket (f.drop 14)) : frameKey f = some (packetKey f (f.drop 14)) := by
  have heth' : parseEthernet f = some ⟨slice f 0 6, slice f 6 12, etherType f, f.drop 14⟩ := if_neg (by omega)
  have hinner := parseInner_of_type heth (by rw [htype]; decide)
  obtain ⟨flags, htransport⟩ := h.parseTransport_eq
  have hproto : (if (protocol (f.drop 14)).toNat = 6 then Proto.tcp
      else if (protocol (f.drop 14)).toNat = 17 then .udp else .other) =
      if protocol (f.drop 14) = 6 then .tcp else .udp := by
    rcases h.proto with hp | hp
    · rw [hp]; rfl
    · rw [hp]; rfl
  rw [htype] at heth' hinner
  simp only [frameKey, flowPacket, parsePacket, heth', hinner, h.parseIp_eq, Option.bind_eq_bind, Option.bind_some,
    true_or, if_true, Option.map_some, htransport, getFiveTuple, hproto]
  rfl

theorem flowPacket_tagged {f out : Bytes} (heth : 14 ≤ f.length) (htype : etherType f ≠ 0x8100) {vlanId : Option Int}
    (htag : addOrModifyVlan f vlanId = some out) : flowPacket out = flowPacket f := by
  cases vlanId with
  | none =>
    obtain rfl := Option.some.inj htag
    rfl
  | some vid =>
    obtain ⟨dst, src, type, payload, hdst, hsrc, htwo, rfl⟩ := exists_parts heth
    rw [etherType_parts hdst hsrc htwo] at htype
    have hne : type ≠ [0x81, 0x00] := fun h => htype ((decode_type_eq_iff htwo).mpr h)
    have hvid : ∃ n : Nat, n < 65536 ∧ vid = n := by
      have hfits : portFits vid = true := by
        by_contra hbad
        simp only [addOrModifyVlan, packInt_port, hbad, if_false, Option.bind_eq_bind, Option.bind_none] at htag
        cases htag
      simp only [portFits, Bool.and_eq_true, decide_eq_true_eq] at hfits
      exact ⟨vid.toNat, by omega, by omega⟩
    obtain ⟨n, hn, rfl⟩ := hvid
    rw [addOrModifyVlan_parts hdst hsrc htwo payload hn, if_neg hne] at htag
    obtain rfl := Option.some.inj htag
    have hbefore := parseEthernet_parts hdst hsrc htwo payload
    have hafter : parseEthernet (dst ++ src ++ [0x81, 0x00] ++ (encode .big 2 n ++ type ++ payload)) = _ :=
      parseEthernet_parts hdst hsrc rfl _
    have hinner := parseInner_untagged hdst hsrc htwo hne payload
    have hbehind : parseInner (dst ++ src ++ [0x81, 0x00] ++ (encode .big 2 n ++ type ++ payload)) = _ :=
      parseInner_tagged hdst hsrc
    rw [parseVlan_append (encode_length .big 2 n) htwo payload] at hbehind
    simp only [flowPacket, parsePacket, hbefore, hafter, hinner, hbehind, Option.bind_eq_bind, Option.bind_some,
      Option.map_some]
    split_ifs
    · cases parseIp payload <;> rfl
    · rfl

/-! ### The key of what is sent -/

/-- Forced addresses of IPv4 and ports that fit. -/
structure Replayer.Ipv4Forced (r : Replayer) : Prop where
  src : ∀ a, r.forceIpSrc = some a → isIpv4Address a = true
  dst : ∀ a, r.forceIpDst = some a → isIpv4Address a = true
  ports : r.portsFit = true

theorem dottedQuad_required {x : Option Str} {own bytes : Bytes} (hown : own.length = 4)
    (h : inetAton ((given x).getD (dottedQuad own)) = some bytes) :
    dottedQuad bytes = ((given x).map canonical).getD (dottedQuad own) := by
  cases hgiven : given x with
  | none =>
    rw [hgiven, Option.getD_none, inetAton_dottedQuad hown] at h
    rw [← Option.some.inj h, Option.map_none, Option.getD_none]
  | some a =>
    rw [hgiven, Option.getD_some] at h
    rw [Option.map_some, Option.getD_some, canonical, h, Option.map_some, Option.getD_some]

theorem toNat_required (x : Option Int) (own : Nat) :
    some ((nonzero x).getD (own : Int)).toNat = ((nonzero x).map Int.toNat).or (some own) := by
  cases nonzero x <;> simp

section

variable {ip src dst : Bytes} (h : TransportPacket ip) (hsrc : src.length = 4) (hdst : dst.length = 4)

include h hsrc hdst

theorem newPacket_protocol (sport dport : Int) : protocol (newPacket ip src dst sport dport) = protocol ip := by
  have hihl := h.ihl
  rw [protocol, protocol, List.getD_eq_getElem?_getD, List.getD_eq_getElem?_getD,
    newPacket_getElem? h hsrc hdst sport dport (.inl (by decide)) (.inl (by omega)) (.inl (by omega))]

theorem tupleOf_newPacket {sport dport : Int} (hsport : portFits sport = true) (hdport : portFits dport = true) :
    tupleOf (newPacket ip src dst sport dport) = ⟨dottedQuad src, dottedQuad dst, sport, dport⟩ := by
  obtain ⟨hnewsrc, hnewdst, hnewsport, hnewdport, -⟩ := newPacket_parts h hsrc hdst sport dport
  obtain ⟨hheader, -⟩ := newPacket_packet h hsrc hdst sport dport
  rw [tupleOf, hnewsrc, hnewdst, hheader, hnewsport, hnewdport, decode_port hsport, decode_port hdport]

end

section

variable {r : Replayer} {f : Bytes} (hforced : r.Ipv4Forced) (h : CapturedFrame f) (flow : FlowInfo)
  (direction : Direction)

include h

theorem take_append_drop_eq (ip : Bytes) : (f.take 14 ++ ip).drop 14 = ip :=
  List.drop_left' (by rw [List.length_take, Nat.min_eq_left h.ethernet])

theorem CapturedFrame.newPacket {src dst : Bytes} (hsrc : src.length = 4) (hdst : dst.length = 4) (sport dport : Int) :
    CapturedFrame (f.take 14 ++ Replay.newPacket (f.drop 14) src dst sport dport) := by
  obtain ⟨-, hnew⟩ := newPacket_packet h.packet hsrc hdst sport dport
  have hlen : (f.take 14 ++ Replay.newPacket (f.drop 14) src dst sport dport).length = f.length := by
    have heth := h.ethernet
    rw [List.length_append, newPacket_length h.packet hsrc hdst, List.length_take, List.length_drop]
    omega
  refine ⟨?_, (etherType_take_append h.ethernet _).trans h.type, ?_, ?_⟩
  · rw [hlen]
    exact h.ethernet
  · rwa [take_append_drop_eq h]
  · rw [hlen]
    exact h.short

include hforced

theorem exists_newPacket (hsome : r.noTupleModification = false) :
    ∃ src dst, inetAton (r.required direction (tupleOf (f.drop 14))).src = some src ∧
      inetAton (r.required direction (tupleOf (f.drop 14))).dst = some dst ∧
      (r.modifyPacket f (some flow) direction).1 =
        f.take 14 ++ newPacket (f.drop 14) src dst (r.required direction (tupleOf (f.drop 14))).sport
          (r.required direction (tupleOf (f.drop 14))).dport := by
  have hshort : (f.drop 14).length - headerLength (f.drop 14) < 65536 := by
    have := h.short
    rw [List.length_drop]
    omega
  obtain ⟨src, dst, hsrc, hdst⟩ := h.packet.required_addresses r direction hforced.src hforced.dst
  refine ⟨src, dst, hsrc, hdst, ?_⟩
  rw [modifyPacket_eq r hsome h.ethernet h.type h.packet flow direction hsrc hdst, if_pos ⟨hforced.ports, hshort⟩]

omit h in
theorem required_fits (ip : Bytes) :
    portFits (r.required direction (tupleOf ip)).sport = true ∧
      portFits (r.required direction (tupleOf ip)).dport = true := by
  have hports := tupleOf_portsFit r direction ip
  rw [hforced.ports] at hports
  exact Bool.and_eq_true_iff.mp hports

/-- **The frame returned** is of the same kind and has the rewritten five-tuple. -/
theorem frameKey_modifyPacket :
    CapturedFrame (r.modifyPacket f (some flow) direction).1 ∧
      frameKey (r.modifyPacket f (some flow) direction).1 = (frameKey f).map (r.rewriteKey direction) := by
  have hpacket := h.packet
  have hkey := frameKey_of_packet h.ethernet h.type hpacket
  cases hnone : r.noTupleModification with
  | true =>
    rw [modifyPacket_of_noTuple hnone, hkey, Option.map_some, rewriteKey_of_noTuple hnone]
    exact ⟨h, rfl⟩
  | false =>
    obtain ⟨src, dst, hsrc, hdst, hmodified⟩ := exists_newPacket hforced h flow direction hnone
    obtain ⟨hsfit, hdfit⟩ := required_fits hforced direction (f.drop 14)
    have hsrc4 := inetAton_length hsrc
    have hdst4 := inetAton_length hdst
    have hcaptured := h.newPacket hsrc4 hdst4 (r.required direction (tupleOf (f.drop 14))).sport
      (r.required direction (tupleOf (f.drop 14))).dport
    have hnewkey := frameKey_of_packet hcaptured.ethernet hcaptured.type hcaptured.packet
    rw [take_append_drop_eq h] at hnewkey
    have hmac (new : Bytes) (i j : Nat) (hj : j ≤ 14) : slice (f.take 14 ++ new) i j = slice f i j := by
      have heth := h.ethernet
      rw [slice_append_left (by rw [List.length_take]; omega), slice_take_of_le f i hj]
    have hown (i : Nat) (hi : i + 4 ≤ 20) : (slice (f.drop 14) i (i + 4)).length = 4 := by
      have hihl := hpacket.ihl
      have hlong := hpacket.length_le
      rw [slice_length]
      omega
    rw [hmodified, hkey, hnewkey, packetKey, tupleOf_newPacket hpacket hsrc4 hdst4 hsfit hdfit,
      newPacket_protocol hpacket hsrc4 hdst4, hmac _ 6 12 (by decide), hmac _ 0 6 (by decide), Option.map_some]
    refine ⟨hcaptured, congrArg some ?_⟩
    have hsport (x : Option Int) :=
      toNat_required x (decode .big (slice ((f.drop 14).drop (headerLength (f.drop 14))) 0 2))
    have hdport (x : Option Int) :=
      toNat_required x (decode .big (slice ((f.drop 14).drop (headerLength (f.drop 14))) 2 4))
    cases direction with
    | uplink =>
      have hsrc' := dottedQuad_required (hown 12 (by decide)) hsrc
      have hdst' := dottedQuad_required (hown 16 (by decide)) hdst
      simp only [Replayer.rewriteKey, packetKey, FiveTuple.mk.injEq, true_and, and_true]
      exact ⟨hsrc', hdst', hsport r.forceSport, hdport r.forceDport⟩
    | downlink =>
      have hsrc' := dottedQuad_required (hown 12 (by decide)) hsrc
      have hdst' := dottedQuad_required (hown 16 (by decide)) hdst
      simp only [Replayer.rewriteKey, packetKey, FiveTuple.mk.injEq, true_and, and_true]
      exact ⟨hsrc', hdst', hsport r.forceDport, hdport r.forceSport⟩

theorem frameKey_sent {out : Bytes} (hsent : r.sentPacket f (some flow) direction = some out) :
    frameKey out = (frameKey f).map (r.rewriteKey direction) := by
  obtain ⟨hcaptured, hkey⟩ := frameKey_modifyPacket hforced h flow direction
  rw [← hkey, frameKey, frameKey]
  unfold Replayer.sentPacket at hsent
  rw [flowPacket_tagged hcaptured.ethernet (by rw [hcaptured.type]; decide) hsent]

end

/-! ### The plan -/

theorem mem_plan {c : Settings} {records : List ReplayRecord} {x : Sending} (hx : x ∈ c.plan records) :
    x.record ∈ records ∧ ∃ p ∈ flowPackets records, flowPacket x.record.pktData = some p ∧
      x.direction = c.assigned (c.hints.track (flowPackets records)).flowTable p.key ∧
      c.sentPacket x.record.pktData (some (.new x.direction)) x.direction = some x.frame := by
  obtain ⟨r, hr, hsending⟩ := List.mem_filterMap.mp hx
  obtain ⟨p, hp, hmade⟩ := Option.bind_eq_some_iff.mp hsending
  obtain ⟨frame, hframe, rfl⟩ := Option.map_eq_some_iff.mp hmade
  exact ⟨hr, p, List.mem_filterMap.mpr ⟨r, hr, hp⟩, hp, rfl, hframe⟩

theorem track_opposed (hints : Hints) (packets : List FlowPacket)
    (htell : ∀ seen p, seen ++ [p] <+: packets → p.OpensSecond seen → hints.Tell p) :
    Opposed (hints.track packets).flowTable := by
  induction packets using List.reverseRecOn with
  | nil =>
    intro key flow flow' _ hkey
    cases hkey
  | append_singleton seen p ih =>
    rw [opposed_track_append_iff]
    refine ⟨ih fun before q hbefore => htell before q (hbefore.trans (List.prefix_append ..)), ?_⟩
    exact htell seen p List.prefix_rfl

theorem assigned_reversed {c : Settings} {packets : List FlowPacket}
    (hopposed : Opposed (c.hints.track packets).flowTable) (hflows : c.skipsFlows = false) {p q : FlowPacket}
    (hp : p ∈ packets) (hq : q ∈ packets) (hkey : q.key = p.key.reversed) (hne : q.key ≠ p.key) :
    c.assigned (c.hints.track packets).flowTable q.key =
      (c.assigned (c.hints.track packets).flowTable p.key).opposite := by
  obtain ⟨flow, hflow⟩ := (lookup_track_eq_some_iff c.hints packets p.key).mpr ⟨p, hp, rfl⟩
  obtain ⟨flow', hflow'⟩ := (lookup_track_eq_some_iff c.hints packets q.key).mpr ⟨q, hq, rfl⟩
  rw [hkey] at hne hflow'
  have hopposite := hopposed p.key flow flow' hne hflow hflow'
  rw [hkey]
  simp only [Settings.assigned, hflows, hflow, hflow', Option.map_some, Option.getD_some, Bool.false_eq_true, if_false]
  cases hd : flow.direction <;> cases hd' : flow'.direction <;> simp_all [Direction.opposite]

section

variable {c : Settings} (hforced : c.Ipv4Forced) {records : List ReplayRecord}
  (hopposed : Opposed (c.hints.track (flowPackets records)).flowTable) {x y : Sending} (hx : x ∈ c.plan records)
  (hy : y ∈ c.plan records) (hfx : CapturedFrame x.record.pktData) (hfy : CapturedFrame y.record.pktData)

include hforced hx hy hfx hfy

theorem plan_same (hkey : frameKey y.record.pktData = frameKey x.record.pktData) :
    frameKey y.frame = frameKey x.frame ∧ y.direction = x.direction := by
  obtain ⟨-, p, -, hpx, hdx, hsx⟩ := mem_plan hx
  obtain ⟨-, q, -, hqy, hdy, hsy⟩ := mem_plan hy
  have hframex := frameKey_sent hforced hfx _ _ hsx
  have hframey := frameKey_sent hforced hfy _ _ hsy
  have hsame : q.key = p.key := by
    rw [frameKey, frameKey, hpx, hqy] at hkey
    exact Option.some.inj hkey
  have hdirection : y.direction = x.direction := by rw [hdx, hdy, hsame]
  exact ⟨by rw [hframex, hframey, hkey, hdirection], hdirection⟩

include hopposed

/-- Packets of two five-tuples that are the reverse of each other stay so. -/
theorem plan_reversed (hkey : frameKey y.record.pktData = (frameKey x.record.pktData).map FiveTuple.reversed)
    (hne : frameKey y.record.pktData ≠ frameKey x.record.pktData) :
    frameKey y.frame = (frameKey x.frame).map FiveTuple.reversed ∧
      (c.skipsFlows = false → y.direction = x.direction.opposite) := by
  obtain ⟨-, p, hp, hpx, hdx, hsx⟩ := mem_plan hx
  obtain ⟨-, q, hq, hqy, hdy, hsy⟩ := mem_plan hy
  have hframex := frameKey_sent hforced hfx _ _ hsx
  have hframey := frameKey_sent hforced hfy _ _ hsy
  have hkx : frameKey x.record.pktData = some p.key := by rw [frameKey, hpx, Option.map_some]
  have hky : frameKey y.record.pktData = some q.key := by rw [frameKey, hqy, Option.map_some]
  rw [hkx, hky] at hne
  rw [hkx, hky, Option.map_some] at hkey
  have hreversed : q.key = p.key.reversed := Option.some.inj hkey
  rw [hframex, hframey, hkx, hky, hreversed]
  cases hflows : c.skipsFlows with
  | true =>
    -- nothing is rewritten
    have hnone : c.noTupleModification = true := by
      rw [Settings.skipsFlows, Bool.and_eq_true, Bool.and_eq_true] at hflows
      exact hflows.1.2
    rw [Option.map_some, Option.map_some, rewriteKey_of_noTuple hnone, rewriteKey_of_noTuple hnone]
    exact ⟨rfl, fun h => by cases h⟩
  | false =>
    have hdirection := assigned_reversed hopposed hflows hp hq hreversed fun h => hne (congrArg some h)
    rw [← hdx, ← hdy] at hdirection
    rw [hdirection, Option.map_some, Option.map_some, Option.map_some, rewriteKey_reversed]
    exact ⟨rfl, fun _ => rfl⟩

end

/-- **Conversations.** With forced addresses of IPv4 and ports that fit, and where every packet that opens a second
direction tells which one it is, a replay of any files keeps the conversations of untagged TCP and UDP frames over IPv4
on the wire, the VLAN tags that it sets included: packets of one five-tuple are sent with one five-tuple in one
direction, and packets of the reversed one with the reverse of that, in the other direction if flows are not skipped. -/
theorem replayFiles_conversations (c : Settings) (hforced : c.Ipv4Forced) (stamp : ReplayRecord → Nat × Nat)
    (accepts : Nat → Bool) (host : Endian) (writers : Writers) (files : List (Option Bytes))
    (htell : ∀ seen p, seen ++ [p] <+: flowPackets (filesRecords host files) → p.OpensSecond seen → c.hints.Tell p) :
    (c.replayFiles stamp accepts host ⟨∅, 0⟩ writers files).1.sent =
        (acceptedOf accepts (c.plan (filesRecords host files))).map (fun x => (c.socket x.direction, x.frame)) ∧
      ∀ x ∈ c.plan (filesRecords host files), ∀ y ∈ c.plan (filesRecords host files),
        CapturedFrame x.record.pktData → CapturedFrame y.record.pktData →
        (frameKey y.record.pktData = frameKey x.record.pktData →
          frameKey y.frame = frameKey x.frame ∧ y.direction = x.direction) ∧
        (frameKey y.record.pktData = (frameKey x.record.pktData).map FiveTuple.reversed →
          frameKey y.record.pktData ≠ frameKey x.record.pktData →
          frameKey y.frame = (frameKey x.frame).map FiveTuple.reversed ∧
            (c.skipsFlows = false → y.direction = x.direction.opposite)) := by
  obtain ⟨hsent, -⟩ := replayFiles_emitted c stamp accepts host writers files
  refine ⟨hsent, fun x hx y hy hfx hfy => ⟨?_, ?_⟩⟩
  · exact plan_same hforced hx hy hfx hfy
  · exact plan_reversed hforced (track_opposed c.hints _ htell) hx hy hfx hfy

/-- The answer to `synFrame`. -/
def answerFrame : Bytes :=
  List.replicate 12 1 ++ [0x08, 0x00] ++
    [0x45, 0, 0, 40, 0, 1, 0, 0, 64, 6, 0x66, 0xcd, 10, 0, 0, 2, 10, 0, 0, 1] ++
    [0, 80, 0x12, 0x34, 0, 0, 0, 9, 0, 0, 0, 2, 0x50, 0x12, 0x20, 0, 0, 0, 0, 0]

def talkFile : Bytes :=
  encode .little 4 0xA1B2C3D4 ++ List.replicate 20 0 ++ headerBytes .little 1 2 synFrame.length ++ synFrame ++
    headerBytes .little 3 4 answerFrame.length ++ answerFrame

def talkRecords : List ReplayRecord :=
  [⟨1, 2, 1000000, 54, 54, synFrame⟩, ⟨3, 4, 1000000, 54, 54, answerFrame⟩]

/-- `10.0.0.9` for the client, and a second interface with VLAN 5 for the downlink. -/
def fromNineSettings : Settings :=
  ⟨⟨some "10.0.0.9".toList, none, none, none, none, some 5⟩, "eth0".toList, some "eth1".toList, false, ⟨none, none⟩⟩

theorem fromNine_forced : fromNineSettings.Ipv4Forced where
  src := by
    rintro a ⟨⟩
    decide +kernel
  dst := by
    rintro a ⟨⟩
  ports := rfl

theorem filesRecords_talk : filesRecords .little [some talkFile] = talkRecords := by decide +kernel

theorem talk_tells : ∀ seen p, seen ++ [p] <+: flowPackets (filesRecords .little [some talkFile]) → p.OpensSecond seen →
    fromNineSettings.hints.Tell p := by
  have htwo : (flowPackets talkRecords).length = 2 := by decide +kernel
  intro seen p hprefix hopens
  rw [filesRecords_talk] at hprefix
  obtain ⟨-, -, q, hq, -⟩ := hopens
  have hlen := hprefix.length_le
  have hpos := List.length_pos_of_mem hq
  rw [List.length_append, List.length_singleton, htwo] at hlen
  have hlast : (flowPackets talkRecords)[1]? = some p := by
    have hone : seen.length = 1 := by omega
    obtain ⟨rest, hrest⟩ := hprefix
    rw [← hrest, ← hone]
    simp
  have hanswer : (flowPackets talkRecords)[1]?.all (fun p => !isSyn p.proto p.flags) = true := by decide +kernel
  rw [hlast, Option.all_some, Bool.not_eq_true'] at hanswer
  exact hanswer

theorem capturedFrame_syn : CapturedFrame synFrame :=
  ⟨by decide, by decide, ⟨by decide, by decide, by decide, by decide⟩, by decide⟩

theorem capturedFrame_answer : CapturedFrame answerFrame :=
  ⟨by decide, by decide, ⟨by decide, by decide, by decide, by decide⟩, by decide⟩

theorem captured_talk : ∀ r ∈ filesRecords .little [some talkFile], (flowPacket r.pktData).isSome = true →
    CapturedFrame r.pktData := by
  rw [filesRecords_talk]
  intro r hr _
  simp only [talkRecords, List.mem_cons, List.not_mem_nil, or_false] at hr
  rcases hr with rfl | rfl
  · exact capturedFrame_syn
  · exact capturedFrame_answer

theorem replayFiles_conversations_talk :
    ∃ x ∈ fromNineSettings.plan talkRecords, ∃ y ∈ fromNineSettings.plan talkRecords,
      frameKey x.frame ≠ frameKey x.record.pktData ∧ frameKey y.frame = (frameKey x.frame).map FiveTuple.reversed ∧
        y.direction = .downlink := by
  obtain ⟨-, hall⟩ := replayFiles_conversations fromNineSettings fromNine_forced (fun r => (r.tsSec, r.tsFrac))
    (fun _ => true) .little ⟨none, none, none⟩ [some talkFile] talk_tells
  rw [filesRecords_talk] at hall
  have hframes : (fromNineSettings.plan talkRecords).map (fun x => x.record.pktData) = [synFrame, answerFrame] := by
    decide +kernel
  have hchanged : ∀ x ∈ fromNineSettings.plan talkRecords, frameKey x.frame ≠ frameKey x.record.pktData := by
    decide +kernel
  have hdirections : (fromNineSettings.plan talkRecords).map Sending.direction = [.uplink, .downlink] := by
    decide +kernel
  generalize fromNineSettings.plan talkRecords = plan at *
  obtain ⟨x, rest, rfl, hfx, hrest⟩ := List.map_eq_cons_iff.mp hframes
  obtain ⟨y, rest, rfl, hfy, hnil⟩ := List.map_eq_cons_iff.mp hrest
  obtain rfl := List.map_eq_nil_iff.mp hnil
  simp only [List.map_cons, List.map_nil, List.cons.injEq, and_true] at hdirections
  have hx : x ∈ [x, y] := List.mem_cons_self
  have hy : y ∈ [x, y] := List.mem_cons_of_mem x List.mem_cons_self
  obtain ⟨-, hreversed⟩ := hall x hx y hy (hfx ▸ capturedFrame_syn) (hfy ▸ capturedFrame_answer)
  rw [hfx, hfy] at hreversed
  obtain ⟨hkey, -⟩ := hreversed (by decide +kernel) (by decide +kernel)
  exact ⟨x, hx, y, hy, hchanged x hx, hkey, hdirections.2⟩

/-! ### The flows of what was sent -/

/-- What is a function of `f` takes no more values than `f`. -/
theorem card_toFinset_map_le {α β γ : Type*} [DecidableEq β] [DecidableEq γ] (xs : List α) (f : α → β) (g : α → γ)
    (hfactors : ∀ x ∈ xs, ∀ y ∈ xs, f x = f y → g x = g y) :
    (xs.map g).toFinset.card ≤ (xs.map f).toFinset.card := by
  apply Finset.card_le_card_of_forall_subsingleton fun b a => ∃ x ∈ xs, g x = b ∧ f x = a
  · intro b hb
    obtain ⟨x, hx, rfl⟩ := List.mem_map.mp (List.mem_toFinset.mp hb)
    exact ⟨f x, List.mem_toFinset.mpr (List.mem_map_of_mem hx), x, hx, rfl, rfl⟩
  · rintro a - b ⟨-, x, hx, rfl, hfx⟩ b' ⟨-, y, hy, rfl, hfy⟩
    exact hfactors x hx y hy (hfx.trans hfy.symm)

/-- The flow of a frame. -/
def frameFlow (frame : Bytes) : Finset FiveTuple := ((frameKey frame).map FiveTuple.flow).getD ∅

theorem frameFlow_of_key {frame : Bytes} {key : FiveTuple} (h : frameKey frame = some key) :
    frameFlow frame = key.flow := by
  rw [frameFlow, h, Option.map_some, Option.getD_some]

theorem mem_flowsSeen_filterMap {frames : List Bytes} {flow : Finset FiveTuple} :
    flow ∈ flowsSeen (frames.filterMap flowPacket) ↔
      ∃ frame ∈ frames, ∃ key, frameKey frame = some key ∧ key.flow = flow := by
  simp only [flowsSeen, List.mem_toFinset, List.mem_map, List.mem_filterMap, frameKey, Option.map_eq_some_iff]
  constructor
  · rintro ⟨p, ⟨frame, hframe, hp⟩, rfl⟩
    exact ⟨frame, hframe, p.key, ⟨p, hp, rfl⟩, rfl⟩
  · rintro ⟨frame, hframe, key, ⟨p, hp, rfl⟩, rfl⟩
    exact ⟨p, ⟨frame, hframe, hp⟩, rfl⟩

/-- The frames of a plan have no more flows than its packets. -/
theorem card_plan_le {c : Settings} (hforced : c.Ipv4Forced) {records : List ReplayRecord}
    (hopposed : Opposed (c.hints.track (flowPackets records)).flowTable)
    (hframes : ∀ x ∈ c.plan records, CapturedFrame x.record.pktData) :
    ((c.plan records).map fun x => frameFlow x.frame).toFinset.card ≤
      ((c.plan records).map fun x => frameFlow x.record.pktData).toFinset.card := by
  apply card_toFinset_map_le
  intro x hx y hy hflow
  have hfx := hframes x hx
  have hfy := hframes y hy
  obtain ⟨-, p, -, hpx, -⟩ := mem_plan hx
  obtain ⟨-, q, -, hqy, -⟩ := mem_plan hy
  have hkx : frameKey x.record.pktData = some p.key := by rw [frameKey, hpx, Option.map_some]
  have hky : frameKey y.record.pktData = some q.key := by rw [frameKey, hqy, Option.map_some]
  rw [frameFlow_of_key hkx, frameFlow_of_key hky] at hflow
  by_cases hsame : q.key = p.key
  · obtain ⟨hkey, -⟩ := plan_same hforced hx hy hfx hfy (by rw [hkx, hky, hsame])
    rw [frameFlow, frameFlow, hkey]
  · rcases FiveTuple.flow_eq_iff.mp hflow with hkey | hkey
    · exact absurd hkey.symm hsame
    · have hreversed : q.key = p.key.reversed := by rw [hkey, FiveTuple.reversed_reversed]
      obtain ⟨hframe, -⟩ := plan_reversed hforced hopposed hx hy hfx hfy (by rw [hkx, hky, hreversed, Option.map_some])
        (by rw [hkx, hky]; exact fun h => hsame (Option.some.inj h))
      rw [frameFlow, frameFlow, hframe]
      cases frameKey x.frame with
      | none => rfl
      | some key => exact FiveTuple.flow_eq_iff.mpr (.inr rfl)

theorem flowPackets_eq (records : List ReplayRecord) :
    flowPackets records = (records.map ReplayRecord.pktData).filterMap flowPacket := by
  rw [List.filterMap_map]
  rfl

/-- **Flows.** Under these conditions, and where every frame of the files that is parsed is as `CapturedFrame` says, a
replay never splits a flow: in any recording of what the sockets accepted, a replay with any hints counts at most as many
flows as are in the files, which is what the replay itself counts where it does not skip the flows. -/
theorem replayFiles_flows (c : Settings) (hforced : c.Ipv4Forced) (stamp : ReplayRecord → Nat × Nat)
    (accepts : Nat → Bool) (host : Endian) (writers : Writers) (files : List (Option Bytes))
    (htell : ∀ seen p, seen ++ [p] <+: flowPackets (filesRecords host files) → p.OpensSecond seen → c.hints.Tell p)
    (hframes : ∀ r ∈ filesRecords host files, (flowPacket r.pktData).isSome = true → CapturedFrame r.pktData)
    (hints : Hints) (recording : List ReplayRecord)
    (hrecording : recording.map ReplayRecord.pktData =
      (c.replayFiles stamp accepts host ⟨∅, 0⟩ writers files).1.sent.map Prod.snd) :
    (hints.track (flowPackets recording)).flowCount ≤
      (c.hints.track (flowPackets (filesRecords host files))).flowCount := by
  obtain ⟨hsent, -⟩ := replayFiles_emitted c stamp accepts host writers files
  have hplan := card_plan_le hforced (track_opposed c.hints _ htell) fun x hx => by
    obtain ⟨hr, p, -, hp, -⟩ := mem_plan hx
    exact hframes x.record hr (by rw [hp]; rfl)
  rw [flowCount_track, flowCount_track, flowPackets_eq recording, hrecording, hsent, flowPackets_eq]
  refine Nat.le_trans (Finset.card_le_card fun flow hflow => ?_)
    (Nat.le_trans hplan (Finset.card_le_card fun flow hflow => ?_))
  · -- a flow of the recording is one of the plan
    obtain ⟨frame, hframe, key, hkey, rfl⟩ := mem_flowsSeen_filterMap.mp hflow
    rw [List.map_map] at hframe
    obtain ⟨x, hx, rfl⟩ := List.mem_map.mp hframe
    rw [← frameFlow_of_key hkey]
    exact List.mem_toFinset.mpr (List.mem_map.mpr ⟨x, mem_of_mem_acceptedOf hx, rfl⟩)
  · obtain ⟨x, hx, rfl⟩ := List.mem_map.mp (List.mem_toFinset.mp hflow)
    obtain ⟨hr, p, -, hp, -⟩ := mem_plan hx
    have hkey : frameKey x.record.pktData = some p.key := by rw [frameKey, hp, Option.map_some]
    rw [frameFlow_of_key hkey]
    exact mem_flowsSeen_filterMap.mpr ⟨_, List.mem_map_of_mem hr, p.key, hkey, rfl⟩

/-- A recording of the replay of `talkFile`, without times. -/
theorem replayFiles_flows_talk :
    ∃ recording : List ReplayRecord,
      recording.map ReplayRecord.pktData =
        (fromNineSettings.replayFiles (fun r => (r.tsSec, r.tsFrac)) (fun _ => true) .little ⟨∅, 0⟩
          ⟨none, none, none⟩ [some talkFile]).1.sent.map Prod.snd ∧
      recording.length = 2 ∧ (fromNineSettings.hints.track (flowPackets recording)).flowCount ≤ 1 := by
  have hlen : (fromNineSettings.replayFiles (fun r => (r.tsSec, r.tsFrac)) (fun _ => true) .little ⟨∅, 0⟩
      ⟨none, none, none⟩ [some talkFile]).1.sent.length = 2 := by decide +kernel
  have hone : (fromNineSettings.hints.track (flowPackets (filesRecords .little [some talkFile]))).flowCount = 1 := by
    rw [filesRecords_talk]
    decide +kernel
  refine ⟨(fromNineSettings.replayFiles (fun r => (r.tsSec, r.tsFrac)) (fun _ => true) .little ⟨∅, 0⟩
    ⟨none, none, none⟩ [some talkFile]).1.sent.map fun x => ⟨0, 0, 1000000, 0, 0, x.2⟩, ?_, ?_, ?_⟩
  · rw [List.map_map]
    rfl
  · rw [List.length_map, hlen]
  · rw [← hone]
    exact replayFiles_flows fromNineSettings fromNine_forced (fun r => (r.tsSec, r.tsFrac)) (fun _ => true) .little
      ⟨none, none, none⟩ [some talkFile] talk_tells captured_talk fromNineSettings.hints _ (by rw [List.map_map]; rfl)

end SocketServer.Replay
