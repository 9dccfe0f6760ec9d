import SocketServer.Replay.Lengths

/-!
# Fragments

`build_modified_packet` never looks at the fragment offset: behind the header of a later fragment it writes ports and a
checksum into the data.

* `modifyPacket_fragment_iff` : when `modify_packet` leaves what a later fragment has behind its header.
-/

namespace SocketServer.Replay

open Bytes Inet

/-! ### When a step is made -/

theorem packInt_isSome (port : Int) : (packInt .big 2 port).isSome = portFits port := by
  rw [packInt_port]
  cases portFits port <;> rfl

theorem setPort_isSome (target : Option Int) (i j : Nat) (header : Bytes) :
    (setPort target i j header).isSome = target.all portFits := by
  cases target with
  | none => rfl
  | some port => rw [setPort, Option.isSome_map, packInt_isSome, Option.all_some]

theorem setPorts_isSome (flow : FlowInfo) (payload : Bytes) :
    (flow.setPorts payload).isSome = (flow.modifiedSport.all portFits && flow.modifiedDport.all portFits) := by
  have hsport := setPort_isSome flow.modifiedSport 0 2 (payload.take 4)
  rw [FlowInfo.setPorts, ← hsport]
  cases setPort flow.modifiedSport 0 2 (payload.take 4) with
  | none => rfl
  | some header =>
    have hdport := setPort_isSome flow.modifiedDport 2 4 header
    rw [Option.bind_eq_bind, Option.bind_some, ← hdport, Option.isSome_some, Bool.true_and]
    cases setPort flow.modifiedDport 2 4 header <;> rfl

theorem translatePorts_isSome (flow : FlowInfo) {payload : Bytes} (h : 4 ≤ payload.length) :
    (flow.translatePorts payload).isSome = (flow.modifiedSport.all portFits && flow.modifiedDport.all portFits) := by
  have hsport := packInt_isSome ((nonzero flow.modifiedSport).getD (decode .big (slice payload 0 2)))
  have hdport := packInt_isSome ((nonzero flow.modifiedDport).getD (decode .big (slice payload 2 4)))
  rw [portFits_getD _ (port_lt payload 0)] at hsport
  rw [portFits_getD _ (port_lt payload 2)] at hdport
  rw [FlowInfo.translatePorts, if_neg (by omega), ← hsport, ← hdport]
  cases packInt .big 2 ((nonzero flow.modifiedSport).getD (decode .big (slice payload 0 2))) with
  | none => rfl
  | some sport =>
    cases packInt .big 2 ((nonzero flow.modifiedDport).getD (decode .big (slice payload 2 4))) <;> rfl

theorem setPort_length_le {target : Option Int} {i : Nat} {header out : Bytes}
    (h : setPort target i (i + 2) header = some out) : out.length ≤ header.length + 2 := by
  cases target with
  | none =>
    obtain rfl := Option.some.inj h
    omega
  | some port =>
    obtain ⟨b, hb, rfl⟩ := Option.map_eq_some_iff.mp h
    rw [splice_length_eq, length_of_packInt hb]
    omega

theorem setPorts_length_lt_iff {flow : FlowInfo} {payload trans : Bytes} (h : flow.setPorts payload = some trans) :
    trans.length < 65536 ↔ payload.length < 65536 := by
  obtain ⟨hle, hiff⟩ := setPorts_length h
  rcases Nat.lt_or_ge payload.length 4 with hshort | hlong
  · simp only [FlowInfo.setPorts, Option.bind_eq_bind, Option.bind_eq_some_iff] at h
    obtain ⟨sport, hsport, dport, hdport, h⟩ := h
    obtain rfl := Option.some.inj h
    have hsport' := setPort_length_le hsport
    have hdport' := setPort_length_le hdport
    rw [List.length_take] at hsport'
    rw [List.length_append, List.length_drop] at *
    omega
  · rw [hiff.mpr ⟨fun _ => by omega, fun _ => hlong⟩]

/-! ### The data of a fragment -/

theorem newSegment_eq_self_iff (sport dport : Int) {data : Bytes} (h : 4 ≤ data.length) :
    newSegment sport dport data = data ↔
      slice data 0 2 = encode .big 2 sport.toNat ∧ slice data 2 4 = encode .big 2 dport.toNat := by
  have hsplit : data = slice data 0 2 ++ slice data 2 4 ++ data.drop 4 := by
    rw [slice_append_slice data (by decide) (by decide)]
    exact (List.take_append_drop 4 data).symm
  have htwo : (slice data 0 2).length = 2 := by rw [slice_length]; omega
  have htwo' : (slice data 2 4).length = 2 := by rw [slice_length]; omega
  rw [newSegment]
  constructor
  · intro heq
    rw [List.append_assoc] at heq
    conv at heq => rhs; rw [hsplit, List.append_assoc]
    obtain ⟨hsport, hrest⟩ := List.append_inj heq (by rw [encode_length, htwo])
    exact ⟨hsport.symm, (List.append_inj hrest (by rw [encode_length, htwo'])).1.symm⟩
  · rintro ⟨hsport, hdport⟩
    rw [← hsport, ← hdport, ← hsplit]

/-- Ports and a checksum leave the data as it is exactly when they are there already. -/
theorem fillChecksum_newSegment_iff (pseudo : Bytes) (sport dport : Int) {data : Bytes} {i : Nat} (hi : 4 ≤ i)
    (hlen : i + 2 ≤ data.length) :
    fillChecksum pseudo (newSegment sport dport data) i = data ↔
      newSegment sport dport data = data ∧
        slice data i (i + 2) = encode .big 2 (checksum (pseudo ++ splice data i (i + 2) [0, 0])) := by
  have hseglen := newSegment_length sport dport (by omega : 4 ≤ data.length)
  have hself : fillChecksum pseudo data i = data ↔
      slice data i (i + 2) = encode .big 2 (checksum (pseudo ++ splice data i (i + 2) [0, 0])) := by
    rw [fillChecksum_eq pseudo hlen, splice_eq_self_iff (by omega) hlen (word_length i _)]
  constructor
  · intro heq
    have hsame : newSegment sport dport data = data := by
      have htake := congrArg (List.take 4) heq
      rw [fillChecksum_eq pseudo (by omega), splice_take_of_le hi (by omega)] at htake
      rw [← List.take_append_drop 4 (newSegment sport dport data), htake, newSegment_drop, List.take_append_drop]
    rw [hsame] at heq
    exact ⟨hsame, hself.mp heq⟩
  · rintro ⟨hsame, hword⟩
    rw [hsame]
    exact hself.mpr hword

/-! ### Targets -/

/-- A fragment of a TCP segment or UDP datagram over IPv4 that is not the first one, with its IPv4 header captured. -/
structure LaterFragment (ip : Bytes) : Prop where
  version : ipVersion ip = 4
  ihl : 20 ≤ headerLength ip
  header : headerLength ip ≤ ip.length
  proto : protocol ip = 6 ∨ protocol ip = 17
  offset : 0 < decode .big (slice ip 6 8) % 0x2000

/-- `flow_info` has the targets `t` for a packet with this data behind its header. -/
structure FlowInfo.Targets (flow : FlowInfo) (t : Tuple) (data : Bytes) : Prop where
  src : flow.modifiedIpSrc = some t.src ∧ t.src ≠ []
  dst : flow.modifiedIpDst = some t.dst ∧ t.dst ≠ []
  sport : 4 ≤ data.length → flow.modifiedSport = some t.sport
  dport : 4 ≤ data.length → flow.modifiedDport = some t.dport

theorem given_getD_ne_nil (x : Option Str) {b : Bytes} (hb : b.length = 4) : (given x).getD (dottedQuad b) ≠ [] := by
  intro hnil
  cases hgiven : given x with
  | none =>
    rw [hgiven, Option.getD_none] at hnil
    have haddr := inetAton_dottedQuad hb
    rw [hnil] at haddr
    cases haddr
  | some a =>
    obtain ⟨-, hne⟩ := Option.filter_eq_some_iff.mp hgiven
    rw [hgiven, Option.getD_some] at hnil
    rw [hnil] at hne
    cases hne

theorem portFits_or (x : Option Int) {parsed : Option Nat} (hparsed : ∀ n, parsed = some n → n < 65536) :
    ((nonzero x).or (parsed.map Int.ofNat)).all portFits = x.all portFits := by
  cases parsed with
  | some n =>
    have hcast : (some n).map Int.ofNat = some (n : Int) := rfl
    rw [hcast, ← portFits_getD x (hparsed n rfl)]
    cases nonzero x with
    | none => rw [Option.none_or, Option.all_some, Option.getD_none]
    | some port => rw [Option.some_or, Option.all_some, Option.getD_some]
  | none =>
    have hzero := portFits_getD x (n := 0) (by omega)
    rw [← hzero]
    cases nonzero x with
    | none => rfl
    | some port => rfl

theorem parseTransport_lt (proto : Nat) (data : Bytes) :
    (∀ n, (parseTransport proto data).sport = some n → n < 65536) ∧
      ∀ n, (parseTransport proto data).dport = some n → n < 65536 := by
  rw [parseTransport]
  by_cases hports : (proto = 6 ∨ proto = 17) ∧ 4 ≤ data.length
  · rw [if_pos hports]
    refine ⟨?_, ?_⟩
    · rintro n ⟨⟩
      exact port_lt data 0
    · rintro n ⟨⟩
      exact port_lt data 2
  · rw [if_neg hports]
    exact ⟨by simp, by simp⟩

section

variable {ip : Bytes} (h : LaterFragment ip) (r : Replayer) (direction : Direction) (flow : FlowInfo)

include h

theorem LaterFragment.parseIp_eq :
    parseIp ip = some ⟨.ipv4, dottedQuad (slice ip 12 16), dottedQuad (slice ip 16 20), (protocol ip).toNat,
      ip.drop (headerLength ip)⟩ := by
  have hihl := h.ihl
  have hheader := h.header
  exact parseIp_of_version h.version (by omega)

theorem LaterFragment.targets : (r.targets direction (parseIp ip) flow).Targets (r.required direction (tupleOf ip))
    (ip.drop (headerLength ip)) := by
  have hihl := h.ihl
  have hheader := h.header
  have hsrc (x : Option Str) : (given x).getD (dottedQuad (slice ip 12 16)) ≠ [] :=
    given_getD_ne_nil x (by rw [slice_length]; omega)
  have hdst (x : Option Str) : (given x).getD (dottedQuad (slice ip 16 20)) ≠ [] :=
    given_getD_ne_nil x (by rw [slice_length]; omega)
  rw [h.parseIp_eq]
  obtain ⟨hsrc', hdst'⟩ := targets_required r direction flow _ _ _ _ _ _ _
  refine ⟨⟨hsrc', ?_⟩, ⟨hdst', ?_⟩, fun hlen => ?_, fun hlen => ?_⟩
  · cases direction <;> exact hsrc _
  · cases direction <;> exact hdst _
  all_goals
    obtain ⟨flags, hparsed⟩ := parseTransport_of_length h.proto hlen
    obtain ⟨hsport, hdport⟩ := targets_ports r direction flow .ipv4 (dottedQuad (slice ip 12 16))
      (dottedQuad (slice ip 16 20)) hparsed
  · exact hsport
  · exact hdport

omit h in
theorem targets_portsFit (packet : Option Ip) :
    ((r.targets direction packet flow).modifiedSport.all portFits &&
      (r.targets direction packet flow).modifiedDport.all portFits) = r.portsFit := by
  have hfits {sport dport : Option Nat} (hsport : ∀ n, sport = some n → n < 65536)
      (hdport : ∀ n, dport = some n → n < 65536) (x y : Option Int) :
      (((nonzero x).or (sport.map Int.ofNat)).all portFits && ((nonzero y).or (dport.map Int.ofNat)).all portFits) =
        (x.all portFits && y.all portFits) := congrArg₂ and (portFits_or x hsport) (portFits_or y hdport)
  have hports : r.portsFit = (r.forceDport.all portFits && r.forceSport.all portFits) := Bool.and_comm _ _
  cases packet with
  | none =>
    have hnone : ∀ n : Nat, none = some n → n < 65536 := by simp
    cases direction with
    | uplink => exact hfits hnone hnone r.forceSport r.forceDport
    | downlink => exact (hfits hnone hnone r.forceDport r.forceSport).trans hports.symm
  | some ip =>
    obtain ⟨hsport, hdport⟩ := parseTransport_lt ip.proto ip.payload
    cases direction with
    | uplink => exact hfits hsport hdport r.forceSport r.forceDport
    | downlink => exact (hfits hsport hdport r.forceDport r.forceSport).trans hports.symm

end

/-! ### When a fragment is rewritten -/

section

variable {ip : Bytes} (h : LaterFragment ip) {flow : FlowInfo} {t : Tuple}
  (ht : flow.Targets t (ip.drop (headerLength ip)))

include h ht

theorem LaterFragment.rewriteIpv4_eq : rewriteIpv4 flow ip = (do
    let src ← inetAton t.src
    let dst ← inetAton t.dst
    let trans ← flow.setPorts (ip.drop (headerLength ip))
    let pseudo ← pseudoIpv4 (newHeader (ip.take (headerLength ip)) src dst) (protocol ip) trans
    some (newHeader (ip.take (headerLength ip)) src dst ++ fillChecksum pseudo trans (checksumOffset (protocol ip)))) := by
  have hihl := h.ihl
  have hheader := h.header
  have hproto : (ip.take (headerLength ip))[9]? = some (protocol ip) := by
    rw [List.getElem?_take_of_lt (by omega)]
    exact getElem?_of_lt (by omega)
  rw [Replay.rewriteIpv4_eq, hproto, ht.src.1, ht.dst.1]
  simp only [setAddress_eq inetAton ht.src.2, setAddress_eq inetAton ht.dst.2, Option.bind_eq_bind, Option.bind_some,
    Option.bind_map]
  refine Option.bind_congr fun src _ => Option.bind_congr fun dst _ => ?_
  rw [Function.comp_apply, behindHeader, if_pos (hasPorts_of_proto h.proto)]
  simp only [Option.bind_eq_bind, Option.map_bind, fillTransport_eq h.proto]
  refine Option.bind_congr fun trans _ => ?_
  rw [Function.comp_apply, Option.map_bind]
  rfl

theorem LaterFragment.rewriteIpv4_isSome_iff : (rewriteIpv4 flow ip).isSome = true ↔
    isIpv4Address t.src = true ∧ isIpv4Address t.dst = true ∧
      (flow.modifiedSport.all portFits && flow.modifiedDport.all portFits) = true ∧
      ip.length - headerLength ip < 65536 := by
  have hports := setPorts_isSome flow (ip.drop (headerLength ip))
  rw [h.rewriteIpv4_eq ht, isIpv4Address, isIpv4Address, ← hports]
  cases inetAton t.src with
  | none => simp
  | some src =>
    cases inetAton t.dst with
    | none => simp
    | some dst =>
      cases htrans : flow.setPorts (ip.drop (headerLength ip)) with
      | none => simp
      | some trans =>
        have hlen := setPorts_length_lt_iff htrans
        rw [List.length_drop] at hlen
        simp only [Option.bind_eq_bind, Option.bind_some, Option.isSome_some, true_and, ← hlen, pseudoIpv4, pack]
        split_ifs with hfits <;> simpa using hfits

theorem LaterFragment.translateIpv4_isSome_iff : (translateIpv4 flow ip).isSome = true ↔
    isIpv6Address t.src = true ∧ isIpv6Address t.dst = true ∧
      (flow.modifiedSport.all portFits && flow.modifiedDport.all portFits) = true ∧
      24 ≤ ip.length ∧ ip.length < 65556 := by
  have hihl := h.ihl
  have hheader := h.header
  have hproto : (ip.take 20)[9]? = some (protocol ip) := by
    rw [List.getElem?_take_of_lt (by decide)]
    exact getElem?_of_lt (by omega)
  have hports := hasPorts_of_proto h.proto
  have hdrop : (ip.drop 20).length = ip.length - 20 := List.length_drop
  rw [translateIpv4, hproto, ht.src.1, ht.dst.1, isIpv6Address, isIpv6Address]
  simp only [Option.bind_eq_bind, Option.bind_some, hports, Bool.not_true, Bool.false_and, Bool.false_eq_true, if_false,
    if_true]
  by_cases hfits : (ip.drop 20).length < 256 ^ 2
  · rw [pack_of_lt hfits]
    cases inetPton6 t.src with
    | none => simp
    | some src =>
      cases inetPton6 t.dst with
      | none => simp
      | some dst =>
        by_cases hlong : 4 ≤ (ip.drop 20).length
        · rw [← translatePorts_isSome flow hlong]
          cases htrans : flow.translatePorts (ip.drop 20) with
          | none => simp
          | some trans =>
            have hlen := (translatePorts_length htrans).2
            rw [Option.bind_some, Option.bind_some, Option.bind_some, Option.bind_some, pack_of_lt (by omega)]
            simp only [Option.bind_some, Option.isSome_some, true_and, true_iff]
            omega
        · have hnone : flow.translatePorts (ip.drop 20) = none := by
            rw [FlowInfo.translatePorts, if_pos (by omega)]
          simp only [hnone, Option.bind_some, Option.bind_none, Option.isSome_none, Bool.false_eq_true, false_iff]
          omega
  · have hnone : pack .big 2 (ip.drop 20).length = none := if_neg hfits
    simp only [hnone, Option.bind_none, Option.isSome_none, Bool.false_eq_true, false_iff]
    omega

end

/-- A later fragment is rewritten: its targets are two addresses of IPv4, or two that are only of IPv6, and the ports and
lengths fit. -/
def Rewrites (fits : Bool) (t : Tuple) (ip : Bytes) : Prop :=
  fits = true ∧
    (isIpv4Address t.src = true ∧ isIpv4Address t.dst = true ∧ ip.length - headerLength ip < 65536 ∨
      isIpv4Address t.src = false ∧ isIpv4Address t.dst = false ∧ isIpv6Address t.src = true ∧
        isIpv6Address t.dst = true ∧ 24 ≤ ip.length ∧ ip.length < 65556)

/-- The ports of `t` and the checksum with `t` stand in the data already. -/
def AlreadyThere (t : Tuple) (ip : Bytes) : Prop :=
  let data := ip.drop (headerLength ip)
  let i := checksumOffset (protocol ip)
  ∃ src dst, inetAton t.src = some src ∧ inetAton t.dst = some dst ∧ i + 2 ≤ data.length ∧
    slice data 0 2 = encode .big 2 t.sport.toNat ∧ slice data 2 4 = encode .big 2 t.dport.toNat ∧
    slice data i (i + 2) = encode .big 2 (checksum (src ++ dst ++ [0, protocol ip] ++ encode .big 2 data.length ++
      splice data i (i + 2) [0, 0]))

theorem translatedBehind_length {flow : FlowInfo} {proto : UInt8} {payload out : Bytes}
    {pseudo : Bytes → Option Bytes} (h : translatedBehind flow proto payload pseudo = some out) :
    payload.length ≤ out.length := by
  rw [translatedBehind] at h
  split_ifs at h with hports
  · simp only [Option.bind_eq_bind, Option.bind_eq_some_iff] at h
    obtain ⟨trans, htrans, p, -, h⟩ := h
    obtain rfl := Option.some.inj h
    rw [← (translatePorts_length htrans).2, fillTransport]
    split_ifs
    · exact (fillChecksum_length_iff p trans 16).1
    · exact (fillChecksum_length_iff p trans 6).1
    · exact Nat.le_refl _
  · rw [Option.some.inj h]

theorem rewritten_of_ipv4 (flow : FlowInfo) {ip : Bytes} (hversion : ipVersion ip = 4) :
    rewritten flow ip =
      if flow.target isIpv4Address then rewriteIpv4 flow ip
      else if flow.target isIpv6Address then translateIpv4 flow ip
      else none := by
  cases ip with
  | nil => cases hversion
  | cons first ip =>
    have hfour : first.toNat / 16 = 4 := hversion
    simp [rewritten, hfour]

theorem FlowInfo.Targets.target {flow : FlowInfo} {t : Tuple} {data : Bytes} (h : flow.Targets t data)
    (valid : Str → Bool) : flow.target valid = (valid t.src || valid t.dst) := by
  rw [FlowInfo.target, h.src.1, h.dst.1, given_of_ne_nil h.src.2, given_of_ne_nil h.dst.2, Option.any_some,
    Option.any_some]

section

variable {ip : Bytes} (h : LaterFragment ip) {flow : FlowInfo} {t : Tuple}
  (ht : flow.Targets t (ip.drop (headerLength ip)))

include h ht

theorem LaterFragment.rewritten_isSome_iff : (rewritten flow ip).isSome = true ↔
    Rewrites (flow.modifiedSport.all portFits && flow.modifiedDport.all portFits) t ip := by
  have hipv4 := h.rewriteIpv4_isSome_iff ht
  have hipv6 := h.translateIpv4_isSome_iff ht
  rw [rewritten_of_ipv4 flow h.version, ht.target, ht.target, Rewrites]
  split_ifs with h4 h6
  · rw [hipv4]
    grind
  · rw [hipv6]
    grind
  · grind

theorem LaterFragment.rewriteIpv4_kept_iff {out : Bytes} (hout : rewriteIpv4 flow ip = some out) :
    out.drop (headerLength ip) = ip.drop (headerLength ip) ↔ AlreadyThere t ip := by
  have hihl := h.ihl
  have hheader := h.header
  have htake : (ip.take (headerLength ip)).length = headerLength ip := by rw [List.length_take]; omega
  have heven : (ip.take (headerLength ip)).length % 2 = 0 := by rw [htake, headerLength]; omega
  have hoffset : 6 ≤ checksumOffset (protocol ip) := by
    rw [checksumOffset]
    split_ifs <;> decide
  rw [h.rewriteIpv4_eq ht] at hout
  simp only [Option.bind_eq_bind, Option.bind_eq_some_iff, pseudoIpv4, Option.map_eq_some_iff] at hout
  obtain ⟨src, hsrc, dst, hdst, trans, htrans, pseudo, ⟨len, hlen, rfl⟩, hout⟩ := hout
  obtain rfl := Option.some.inj hout
  have hsrc4 := inetAton_length hsrc
  have hdst4 := inetAton_length hdst
  have hhl := (newHeader_length heven (by omega) hsrc4 hdst4).trans htake
  obtain ⟨hnewsrc, hnewdst⟩ := newHeader_addresses heven (by omega) hsrc4 hdst4
  have haddr : slice (newHeader (ip.take (headerLength ip)) src dst) 12 20 = src ++ dst := by
    rw [← slice_append_slice _ (by decide : 12 ≤ 16) (by decide), hnewsrc, hnewdst]
  rw [List.drop_left' hhl, haddr]
  obtain ⟨hle, hports⟩ := setPorts_length htrans
  rcases Nat.lt_or_ge (ip.drop (headerLength ip)).length (checksumOffset (protocol ip) + 2) with hshort | hlong
  · -- The checksum is appended to what is too short for it.
    obtain ⟨hle', hiff⟩ := fillChecksum_length_iff (src ++ dst ++ [0, protocol ip] ++ len) trans
      (checksumOffset (protocol ip))
    refine iff_of_false (fun heq => ?_) fun hthere => ?_
    · have heqlen := congrArg List.length heq
      omega
    · obtain ⟨_, _, _, _, hcaptured, _⟩ := hthere
      omega
  · rw [setPorts_eq (ht.sport (by omega)) (ht.dport (by omega)) (by omega)] at htrans
    split_ifs at htrans
    obtain rfl := Option.some.inj htrans
    have hnew := newSegment_length t.sport t.dport (by omega : 4 ≤ (ip.drop (headerLength ip)).length)
    rw [newSegment] at hnew
    rw [hnew, pack] at hlen
    split_ifs at hlen
    obtain rfl := Option.some.inj hlen
    have hfill := fillChecksum_newSegment_iff
      (src ++ dst ++ [0, protocol ip] ++ encode .big 2 (ip.drop (headerLength ip)).length) t.sport t.dport
      (by omega) hlong
    rw [newSegment_eq_self_iff _ _ (by omega)] at hfill
    rw [newSegment] at hfill
    rw [hfill]
    constructor
    · rintro ⟨⟨hsport, hdport⟩, hword⟩
      exact ⟨src, dst, hsrc, hdst, hlong, hsport, hdport, hword⟩
    · rintro ⟨src', dst', hsrc', hdst', -, hsport, hdport, hword⟩
      obtain rfl := Option.some.inj (hsrc.symm.trans hsrc')
      obtain rfl := Option.some.inj (hdst.symm.trans hdst')
      exact ⟨⟨hsport, hdport⟩, hword⟩

omit ht in
theorem LaterFragment.translateIpv4_changed {out : Bytes} (hout : translateIpv4 flow ip = some out) :
    out.drop (headerLength ip) ≠ ip.drop (headerLength ip) := by
  intro heq
  have hheader := h.header
  obtain ⟨proto, len, src, dst, trans, -, hlen, hsrc, hdst, htrans, rfl⟩ := translateIpv4_spec flow ip hout
  obtain ⟨a, -, hsrc⟩ := Option.bind_eq_some_iff.mp hsrc
  obtain ⟨b, -, hdst⟩ := Option.bind_eq_some_iff.mp hdst
  have hforty := translatedIpv6_length (length_of_pack hlen) (inetPton6_length hsrc) (inetPton6_length hdst) proto
  have htrans := translatedBehind_length htrans
  have heqlen := congrArg List.length heq
  rw [List.length_drop, List.length_drop, List.length_append, hforty] at heqlen
  rw [List.length_drop] at htrans
  omega

end

/-! ### Frames -/

/-- An untagged frame with such a fragment. -/
structure LaterFragmentFrame (f : Bytes) : Prop where
  ethernet : 14 ≤ f.length
  type : etherType f = 0x0800
  fragment : LaterFragment (f.drop 14)

/-- **Fragments.** `modify_packet` leaves what is behind the IPv4 header of a later fragment exactly when the fragment is
not rewritten, or would have the ports required and their checksum in its data already. -/
theorem modifyPacket_fragment_iff (r : Replayer) {f : Bytes} (h : LaterFragmentFrame f) (flow : Option FlowInfo)
    (direction : Direction) :
    (r.modifyPacket f flow direction).1.drop (14 + headerLength (f.drop 14)) =
        f.drop (14 + headerLength (f.drop 14)) ↔
      flow = none ∨ r.noTupleModification = true ∨
        ¬ Rewrites r.portsFit (r.required direction (tupleOf (f.drop 14))) (f.drop 14) ∨
        AlreadyThere (r.required direction (tupleOf (f.drop 14))) (f.drop 14) := by
  cases flow with
  | none => simp [Replayer.modifyPacket]
  | some flow =>
    cases hforced : r.noTupleModification with
    | true => simp [Replayer.modifyPacket, hforced]
    | false =>
      have hfrag := h.fragment
      have ht := hfrag.targets r direction flow
      have hrewritten := hfrag.rewritten_isSome_iff ht
      rw [targets_portsFit] at hrewritten
      rw [modifyPacket_of_forced r hforced h.ethernet (.inl h.type), ← hrewritten]
      simp only [reduceCtorEq, Bool.false_eq_true, false_or]
      cases hout : rewritten (r.targets direction (parseIp (f.drop 14)) flow) (f.drop 14) with
      | none => simp [buildModifiedPacket, hout]
      | some out =>
        have hfour : (f.take 14).length = 14 := by rw [List.length_take, Nat.min_eq_left h.ethernet]
        have hdrop : (f.take 14 ++ out).drop (14 + headerLength (f.drop 14)) = out.drop (headerLength (f.drop 14)) := by
          rw [← List.drop_drop, List.drop_left' hfour]
        rw [buildModifiedPacket_of_rewritten hout, hdrop, ← List.drop_drop, Option.isSome_some,
          eq_self_iff_true, not_true, false_or]
        have hversion := hfrag.version
        cases (rewritten_branch hout).2 with
        | ipv4 _ _ hbranch => exact hfrag.rewriteIpv4_kept_iff ht hbranch
        | toIpv6 _ htarget hbranch =>
          refine iff_of_false (hfrag.translateIpv4_changed hbranch) ?_
          rintro ⟨src, dst, hsrc, -⟩
          rw [ht.target, isIpv4Address, hsrc] at htarget
          cases htarget
        | ipv6 hsix => omega
        | toIpv4 hsix => omega

/-- A later fragment of a TCP segment: twenty bytes of data. -/
def fragmentFrame : Bytes :=
  List.replicate 12 1 ++ [0x08, 0x00] ++
    [0x45, 0, 0, 40, 0, 1, 0, 185, 64, 6, 0x66, 0x14, 10, 0, 0, 1, 10, 0, 0, 2] ++ List.replicate 20 7

/-- A destination port that does not fit. -/
def toPort65536 : Replayer := ⟨none, none, none, some 65536, none, none⟩

theorem modifyPacket_fragment_kept :
    (toPort65536.modifyPacket fragmentFrame (some newFlow) .uplink).1.drop (14 + headerLength (fragmentFrame.drop 14)) =
      fragmentFrame.drop (14 + headerLength (fragmentFrame.drop 14)) :=
  (modifyPacket_fragment_iff toPort65536
    ⟨by decide, by decide, ⟨by decide, by decide, by decide, by decide, by decide⟩⟩ (some newFlow) .uplink).mpr
    (.inr (.inr (.inl (by
      rintro ⟨hfits, -⟩
      exact absurd hfits (by decide)))))

/-- A port is written into the data. -/
theorem modifyPacket_fragment_port :
    LaterFragmentFrame fragmentFrame ∧
      (toPort8080.modifyPacket fragmentFrame (some newFlow) .uplink).1.drop 34 ≠ fragmentFrame.drop 34 :=
  ⟨⟨by decide, by decide, ⟨by decide, by decide, by decide, by decide, by decide⟩⟩, by decide +kernel⟩

end SocketServer.Replay
