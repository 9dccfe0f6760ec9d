import SocketServer.Replay.Lengths

/-!
# UDP checksums of rewritten packets

The checksum of a UDP datagram is never sent as zero, which stands for no checksum. `checksum` gives zero when the words
it adds up fold to all ones, and each of the four branches of `build_modified_packet` stores what `checksum` gives.

* `udpChecksum_ne_zero_iff` : the checksum stored is not zero exactly when the words do not fold to all ones.
-/

namespace SocketServer.Replay

open Bytes Inet OnesComplement

/-! ### Datagrams -/

/-- Where the transport header of an IP packet begins. -/
def transportOffset (ip : Bytes) : Nat := if ipVersion ip = 4 then headerLength ip else 40

/-- The checksum of a UDP datagram over IPv4 or IPv6. -/
def udpChecksum (ip : Bytes) : Nat := decode .big (slice (ip.drop (transportOffset ip)) 6 8)

/-- A UDP datagram over IPv4 or IPv6, with its full header. -/
def UdpDatagram (ip : Bytes) : Prop :=
  ipVersion ip = 4 ∧ protocol ip = 17 ∧ 20 ≤ headerLength ip ∧ headerLength ip + 8 ≤ ip.length ∨
    ipVersion ip = 6 ∧ ip.getD 6 0 = 17 ∧ 48 ≤ ip.length

instance (ip : Bytes) : Decidable (UdpDatagram ip) := inferInstanceAs (Decidable (_ ∨ _))

/-! ### What is added up -/

/-- The words of the pseudo-header and of a datagram with these addresses, ports and data, and a checksum of zero. -/
def udpTotal (src dst : Bytes) (sport dport : Int) (data : Bytes) : Nat :=
  total src + total dst + 17 + total (encode .big 4 data.length) + sport.toNat + dport.toNat + total (slice data 4 6) +
    total (data.drop 8)

/-- The address of a target, or the one in the packet. -/
def newAddress (read : Str → Option Bytes) (target : Option Str) (own : Bytes) : Bytes :=
  ((given target).bind read).getD own

/-- The words that are added up for a packet with these targets, by the branch it takes. -/
def rewrittenTotal (flow : FlowInfo) (ip : Bytes) : Nat :=
  let ports (sport dport : Option Int) (src dst data : Bytes) :=
    udpTotal src dst (sport.getD (decode .big (slice data 0 2))) (dport.getD (decode .big (slice data 2 4))) data
  if SameFamily flow ip then
    if ipVersion ip = 4 then
      ports flow.modifiedSport flow.modifiedDport (newAddress inetAton flow.modifiedIpSrc (slice ip 12 16))
        (newAddress inetAton flow.modifiedIpDst (slice ip 16 20)) (ip.drop (headerLength ip))
    else
      ports flow.modifiedSport flow.modifiedDport (newAddress inetPton6 flow.modifiedIpSrc (slice ip 8 24))
        (newAddress inetPton6 flow.modifiedIpDst (slice ip 24 40)) (ip.drop 40)
  else if ipVersion ip = 4 then
    ports (nonzero flow.modifiedSport) (nonzero flow.modifiedDport) (newAddress inetPton6 flow.modifiedIpSrc [])
      (newAddress inetPton6 flow.modifiedIpDst []) (ip.drop 20)
  else
    ports (nonzero flow.modifiedSport) (nonzero flow.modifiedDport) (newAddress inetAton flow.modifiedIpSrc [])
      (newAddress inetAton flow.modifiedIpDst []) (ip.drop 40)

/-! ### The checksum filled in -/

theorem checksum_eq_zero_iff (s : Bytes) : checksum s = 0 ↔ fold (total s) = 65535 := by
  have hfold : checksum s = 65535 - fold (total (padded s)) := rfl
  have hlt : fold (total s) < 65536 := Nat.mod_lt _ (by decide)
  rw [hfold, total_padded]
  omega

/-- `out` is an IP header and a datagram, with a checksum over a pseudo-header. -/
def FilledIn (out src dst : Bytes) (sport dport : Int) (data : Bytes) : Prop :=
  ∃ header pseudo : Bytes, out = header ++ fillChecksum pseudo (newSegment sport dport data) 6 ∧
    header.length = transportOffset out ∧ pseudo.length % 2 = 0 ∧
    total pseudo = total src + total dst + 17 + total (encode .big 4 data.length) ∧ src.length ≤ 16 ∧ dst.length ≤ 16 ∧
    8 ≤ data.length ∧ sport.toNat < 65536 ∧ dport.toNat < 65536

theorem total_zeroed {sport dport : Int} (hsport : sport.toNat < 65536) (hdport : dport.toNat < 65536) {data : Bytes}
    (hlen : 8 ≤ data.length) :
    total (splice (newSegment sport dport data) 6 8 [0, 0]) =
      sport.toNat + dport.toNat + total (slice data 4 6) + total (data.drop 8) := by
  have hports : (encode .big 2 sport.toNat ++ encode .big 2 dport.toNat).length = 4 := by
    rw [List.length_append, encode_length, encode_length]
  have hword : (slice data 4 6).length = 2 := by rw [slice_length]; omega
  have htake : (newSegment sport dport data).take 6 =
      encode .big 2 sport.toNat ++ encode .big 2 dport.toNat ++ slice data 4 6 := by
    rw [newSegment, List.take_append, hports, List.take_of_length_le (by omega)]
    rfl
  have hdrop : (newSegment sport dport data).drop 8 = data.drop 8 := by
    rw [newSegment, List.drop_append, hports, List.drop_eq_nil_of_le (by omega), List.nil_append, List.drop_drop]
  rw [splice, htake, hdrop, total_append_of_even, total_append_of_even, total_append_of_even, total_append_of_even,
    total_encode hsport, total_encode hdport]
  · have hzero : total [0, 0] = 0 := rfl
    rw [hzero, Nat.add_zero]
  · rw [encode_length]
  · rw [hports]
  · rw [List.length_append, hports, hword]
  · rw [List.length_append, List.length_append, hports, hword]
    rfl

theorem FilledIn.ne_zero_iff {out src dst : Bytes} {sport dport : Int} {data : Bytes}
    (h : FilledIn out src dst sport dport data) :
    udpChecksum out ≠ 0 ↔ fold (udpTotal src dst sport dport data) ≠ 65535 := by
  obtain ⟨header, pseudo, hout, hheader, heven, htotal, -, -, hlen, hsport, hdport⟩ := h
  have hseg := newSegment_length sport dport (by omega : 4 ≤ data.length)
  have hfill := fillChecksum_eq pseudo (by omega : 6 + 2 ≤ (newSegment sport dport data).length)
  have hle := checksum_le (pseudo ++ splice (newSegment sport dport data) 6 (6 + 2) [0, 0])
  rw [udpChecksum, ← hheader, hout, List.drop_left, hfill,
    slice_splice (by decide) (by omega) (word_length 6 _), decode_encode_of_lt (by omega), Ne, checksum_eq_zero_iff,
    total_append_of_even heven, total_zeroed hsport hdport hlen, htotal, udpTotal]
  simp only [Nat.add_assoc]

/-! ### Ports and addresses -/

theorem packInt_fits {port : Int} {b : Bytes} (h : packInt .big 2 port = some b) :
    port.toNat < 65536 ∧ b = encode .big 2 port.toNat := by
  rw [packInt, pack] at h
  split_ifs at h with hneg hfits
  exact ⟨hfits, (Option.some.inj h).symm⟩

theorem setPort_own {target : Option Int} {i : Nat} {header out : Bytes}
    (h : setPort target i (i + 2) header = some out) (hlen : i + 2 ≤ header.length) :
    (target.getD (decode .big (slice header i (i + 2)))).toNat < 65536 ∧
      out = splice header i (i + 2) (encode .big 2 (target.getD (decode .big (slice header i (i + 2)))).toNat) := by
  cases target with
  | none =>
    have htwo : (slice header i (i + 2)).length = 2 := by rw [slice_length]; omega
    have hown := encode_decode .big (slice header i (i + 2))
    rw [htwo] at hown
    obtain rfl := Option.some.inj h
    refine ⟨port_lt header i, (?_ : splice _ _ _ _ = _).symm⟩
    rw [splice_eq_self_iff (by omega) hlen (word_length i _)]
    exact hown.symm
  | some port =>
    obtain ⟨b, hb, rfl⟩ := Option.map_eq_some_iff.mp h
    obtain ⟨hfits, rfl⟩ := packInt_fits hb
    exact ⟨hfits, rfl⟩

/-- A segment in its own family: the target ports, or its own ones where there is no target. -/
theorem setPorts_own {flow : FlowInfo} {payload trans : Bytes} (h : flow.setPorts payload = some trans)
    (hlen : 4 ≤ payload.length) :
    (flow.modifiedSport.getD (decode .big (slice payload 0 2))).toNat < 65536 ∧
      (flow.modifiedDport.getD (decode .big (slice payload 2 4))).toNat < 65536 ∧
      trans = newSegment (flow.modifiedSport.getD (decode .big (slice payload 0 2)))
        (flow.modifiedDport.getD (decode .big (slice payload 2 4))) payload := by
  have hfour : (payload.take 4).length = 4 := by rw [List.length_take]; omega
  simp only [FlowInfo.setPorts, Option.bind_eq_bind, Option.bind_eq_some_iff] at h
  obtain ⟨first, hfirst, second, hsecond, h⟩ := h
  obtain rfl := Option.some.inj h
  obtain ⟨hsport, rfl⟩ := setPort_own hfirst (by omega)
  rw [slice_take_of_le payload 0 (by decide : 0 + 2 ≤ 4)] at hsport hsecond
  have hword := word_length 0 (flow.modifiedSport.getD (decode .big (slice payload 0 (0 + 2)))).toNat
  have hlen' := splice_length (by decide) (by omega : 0 + 2 ≤ (payload.take 4).length) hword
  obtain ⟨hdport, rfl⟩ := setPort_own hsecond (by omega)
  rw [slice_splice_of_ge (by decide) (by omega) hword (by decide), slice_take_of_le payload 2 (by decide : 2 + 2 ≤ 4)]
    at hdport
  refine ⟨hsport, hdport, ?_⟩
  rw [splice_ports hfour (encode_length ..), newSegment,
    slice_splice_of_ge (by decide) (by omega) hword (by decide), slice_take_of_le payload 2 (by decide : 2 + 2 ≤ 4)]

/-- A translated segment: the target ports, or its own ones where a target is missing or zero. -/
theorem translatePorts_own {flow : FlowInfo} {payload trans : Bytes} (h : flow.translatePorts payload = some trans) :
    ((nonzero flow.modifiedSport).getD (decode .big (slice payload 0 2))).toNat < 65536 ∧
      ((nonzero flow.modifiedDport).getD (decode .big (slice payload 2 4))).toNat < 65536 ∧
      trans = newSegment ((nonzero flow.modifiedSport).getD (decode .big (slice payload 0 2)))
        ((nonzero flow.modifiedDport).getD (decode .big (slice payload 2 4))) payload := by
  rw [FlowInfo.translatePorts] at h
  split_ifs at h
  simp only [Option.bind_eq_bind, Option.bind_eq_some_iff] at h
  obtain ⟨first, hfirst, second, hsecond, h⟩ := h
  obtain rfl := Option.some.inj h
  obtain ⟨hsport, rfl⟩ := packInt_fits hfirst
  obtain ⟨hdport, rfl⟩ := packInt_fits hsecond
  exact ⟨hsport, hdport, rfl⟩

theorem behindHeader_udp {flow : FlowInfo} {icmp : UInt8} {payload out : Bytes} {pseudo : Bytes → Option Bytes}
    (h : behindHeader flow icmp 17 payload pseudo = some out) (hlen : 4 ≤ payload.length) :
    let sport := flow.modifiedSport.getD (decode .big (slice payload 0 2))
    let dport := flow.modifiedDport.getD (decode .big (slice payload 2 4))
    sport.toNat < 65536 ∧ dport.toNat < 65536 ∧ ∃ p, pseudo (newSegment sport dport payload) = some p ∧
      out = fillChecksum p (newSegment sport dport payload) 6 := by
  have hports : hasPorts 17 = true := rfl
  rw [behindHeader, if_pos hports] at h
  simp only [Option.bind_eq_bind, Option.bind_eq_some_iff] at h
  obtain ⟨trans, htrans, p, hp, h⟩ := h
  obtain ⟨hsport, hdport, rfl⟩ := setPorts_own htrans hlen
  exact ⟨hsport, hdport, p, hp, (Option.some.inj h).symm⟩

theorem translatedBehind_udp {flow : FlowInfo} {payload out : Bytes} {pseudo : Bytes → Option Bytes}
    (h : translatedBehind flow 17 payload pseudo = some out) :
    let sport := (nonzero flow.modifiedSport).getD (decode .big (slice payload 0 2))
    let dport := (nonzero flow.modifiedDport).getD (decode .big (slice payload 2 4))
    sport.toNat < 65536 ∧ dport.toNat < 65536 ∧ ∃ p, pseudo (newSegment sport dport payload) = some p ∧
      out = fillChecksum p (newSegment sport dport payload) 6 := by
  have hports : hasPorts 17 = true := rfl
  rw [translatedBehind, if_pos hports] at h
  simp only [Option.bind_eq_bind, Option.bind_eq_some_iff] at h
  obtain ⟨trans, htrans, p, hp, h⟩ := h
  obtain ⟨hsport, hdport, rfl⟩ := translatePorts_own htrans
  exact ⟨hsport, hdport, p, hp, (Option.some.inj h).symm⟩

theorem setAddress_own {read : Str → Option Bytes} {target : Option Str} {i j : Nat} {header out : Bytes}
    (hij : i < j) (hj : j ≤ header.length) (hread : ∀ a b, read a = some b → b.length = j - i)
    (h : setAddress read target i j header = some out) :
    out = splice header i j (newAddress read target (slice header i j)) ∧
      (newAddress read target (slice header i j)).length = j - i := by
  rw [setAddress] at h
  rw [newAddress]
  cases hgiven : given target with
  | none =>
    have hown : (slice header i j).length = j - i := by rw [slice_length]; omega
    rw [hgiven] at h
    obtain rfl := Option.some.inj h
    exact ⟨((splice_eq_self_iff (by omega) hj hown).mpr rfl).symm, hown⟩
  | some addr =>
    rw [hgiven] at h
    obtain ⟨b, hb, rfl⟩ := Option.map_eq_some_iff.mp h
    have haddr : (some addr).bind read = some b := hb
    rw [haddr]
    exact ⟨rfl, hread addr b hb⟩

/-! ### The branches -/

theorem total_pseudoIpv4 {header src dst trans pseudo : Bytes} (hsrc : slice header 12 16 = src)
    (hdst : slice header 16 20 = dst) (hsrc4 : src.length = 4) (hdst4 : dst.length = 4)
    (h : pseudoIpv4 header 17 trans = some pseudo) :
    pseudo.length % 2 = 0 ∧ total pseudo = total src + total dst + 17 + total (encode .big 4 trans.length) := by
  obtain ⟨len, hlen, rfl⟩ := Option.map_eq_some_iff.mp h
  rw [pack] at hlen
  split_ifs at hlen with hfits
  obtain rfl := Option.some.inj hlen
  have hproto : total [0, 17] = 17 := rfl
  rw [← slice_append_slice header (by decide : 12 ≤ 16) (by decide), hsrc, hdst]
  constructor
  · simp only [List.length_append, hsrc4, hdst4, encode_length, List.length_cons, List.length_nil]
  · rw [total_append_of_even (by simp only [List.length_append, hsrc4, hdst4, List.length_cons, List.length_nil]),
      total_append_of_even (by rw [List.length_append, hsrc4, hdst4]), total_append_of_even (by rw [hsrc4]), hproto,
      total_encode hfits, total_encode_four hfits]

theorem total_pseudoIpv6 {header src dst trans pseudo : Bytes} (hsrc : slice header 8 24 = src)
    (hdst : slice header 24 40 = dst) (hsrc16 : src.length = 16) (hdst16 : dst.length = 16)
    (h : pseudoIpv6 header 17 trans = some pseudo) :
    pseudo.length % 2 = 0 ∧ total pseudo = total src + total dst + 17 + total (encode .big 4 trans.length) := by
  obtain ⟨len, hlen, rfl⟩ := Option.map_eq_some_iff.mp h
  rw [pack] at hlen
  split_ifs at hlen with hfits
  obtain rfl := Option.some.inj hlen
  have hproto : total [0, 0, 0, 17] = 17 := rfl
  rw [hsrc, hdst]
  constructor
  · simp only [List.length_append, hsrc16, hdst16, encode_length, List.length_cons, List.length_nil]
  · rw [total_append_of_even (by simp only [List.length_append, hsrc16, hdst16, encode_length]),
      total_append_of_even (by rw [List.length_append, hsrc16, hdst16]), total_append_of_even (by rw [hsrc16]), hproto]
    omega

theorem FilledIn.ipv4 {header pseudo src dst data : Bytes} {sport dport : Int}
    (hoffset : ∀ rest, transportOffset (header ++ rest) = header.length) (hsrc : slice header 12 16 = src)
    (hdst : slice header 16 20 = dst) (hsrc4 : src.length = 4) (hdst4 : dst.length = 4) (hlen : 8 ≤ data.length)
    (hsport : sport.toNat < 65536) (hdport : dport.toNat < 65536)
    (hpseudo : pseudoIpv4 header 17 (newSegment sport dport data) = some pseudo) :
    FilledIn (header ++ fillChecksum pseudo (newSegment sport dport data) 6) src dst sport dport data := by
  obtain ⟨heven, htotal⟩ := total_pseudoIpv4 hsrc hdst hsrc4 hdst4 hpseudo
  rw [newSegment_length sport dport (by omega)] at htotal
  exact ⟨header, pseudo, rfl, (hoffset _).symm, heven, htotal, by omega, by omega, hlen, hsport, hdport⟩

theorem FilledIn.ipv6 {header pseudo src dst data : Bytes} {sport dport : Int}
    (hoffset : ∀ rest, transportOffset (header ++ rest) = header.length) (hsrc : slice header 8 24 = src)
    (hdst : slice header 24 40 = dst) (hsrc16 : src.length = 16) (hdst16 : dst.length = 16) (hlen : 8 ≤ data.length)
    (hsport : sport.toNat < 65536) (hdport : dport.toNat < 65536)
    (hpseudo : pseudoIpv6 header 17 (newSegment sport dport data) = some pseudo) :
    FilledIn (header ++ fillChecksum pseudo (newSegment sport dport data) 6) src dst sport dport data := by
  obtain ⟨heven, htotal⟩ := total_pseudoIpv6 hsrc hdst hsrc16 hdst16 hpseudo
  rw [newSegment_length sport dport (by omega)] at htotal
  exact ⟨header, pseudo, rfl, (hoffset _).symm, heven, htotal, by omega, by omega, hlen, hsport, hdport⟩

theorem transportOffset_append {header : Bytes} {first : UInt8} (h : header.head? = some first) (rest : Bytes) :
    transportOffset (header ++ rest) = if first.toNat / 16 = 4 then first.toNat % 16 * 4 else 40 := by
  cases header with
  | nil => cases h
  | cons b header =>
    obtain rfl := Option.some.inj h
    rfl

theorem head?_getD {s : Bytes} (h : 0 < s.length) : s.head? = some (s.getD 0 0) := by
  rw [List.head?_eq_getElem?, getElem?_of_lt h]

theorem translatedIpv4_parts {len src dst : Bytes} (hlen : len.length = 2) (hsrc : src.length = 4)
    (hdst : dst.length = 4) (proto : UInt8) :
    (translatedIpv4 len src dst proto).length = 20 ∧ (translatedIpv4 len src dst proto).head? = some 0x45 ∧
      slice (translatedIpv4 len src dst proto) 12 16 = src ∧ slice (translatedIpv4 len src dst proto) 16 20 = dst := by
  have htwelve : ([0x45, 0] ++ len ++ [0, 0, 0, 0, 64, proto, 0, 0]).length = 12 := by
    simp only [List.length_append, List.length_cons, List.length_nil, hlen]
  have hhead : ([0x45, 0] ++ len ++ [0, 0, 0, 0, 64, proto, 0, 0]).head? = some 0x45 := rfl
  rw [translatedIpv4]
  generalize [0x45, 0] ++ len ++ [0, 0, 0, 0, 64, proto, 0, 0] = start at *
  have htwenty : (start ++ src ++ dst).length = 20 := by
    rw [List.length_append, List.length_append, htwelve, hsrc, hdst]
  have hfill := fillOwnChecksum_of_even (by rw [htwenty]) (by rw [htwenty]; decide : 10 + 2 ≤ (start ++ src ++ dst).length)
  generalize checksum (splice (start ++ src ++ dst) 10 (10 + 2) [0, 0]) = c at hfill
  have hword := word_length 10 c
  refine ⟨?_, fillOwnChecksum_head? ?_ (by decide), ?_, ?_⟩
  · rw [hfill, splice_length (by decide) (by omega) hword, htwenty]
  · rw [List.head?_append, List.head?_append, hhead, Option.some_or, Option.some_or]
  · rw [hfill, slice_splice_of_ge (by decide) (by omega) hword (by decide), slice_append_left (by
      rw [List.length_append]; omega), slice_append_right (by omega), htwelve, slice_all (by omega)]
  · rw [hfill, slice_splice_of_ge (by decide) (by omega) hword (by decide), slice_append_right (by
      rw [List.length_append]; omega), List.length_append, htwelve, hsrc, slice_all (by omega)]

theorem translatedIpv6_addresses {len src dst : Bytes} (hlen : len.length = 2) (hsrc : src.length = 16)
    (hdst : dst.length = 16) (proto : UInt8) :
    slice (translatedIpv6 len src dst proto) 8 24 = src ∧ slice (translatedIpv6 len src dst proto) 24 40 = dst := by
  have height : ([0x60, 0, 0, 0] ++ len ++ [proto, 64]).length = 8 := by
    simp only [List.length_append, List.length_cons, List.length_nil, hlen]
  rw [translatedIpv6]
  generalize [0x60, 0, 0, 0] ++ len ++ [proto, 64] = start at *
  constructor
  · rw [slice_append_left (by rw [List.length_append]; omega), slice_append_right (by omega), height,
      slice_all (by omega)]
  · rw [slice_append_right (by rw [List.length_append]; omega), List.length_append, height, hsrc, slice_all (by omega)]

section

variable {flow : FlowInfo} {ip out : Bytes}

theorem rewriteIpv4_filledIn (h : rewriteIpv4 flow ip = some out) (hversion : ipVersion ip = 4)
    (hproto : protocol ip = 17) (hihl : 20 ≤ headerLength ip) (hlen : headerLength ip + 8 ≤ ip.length) :
    FilledIn out (newAddress inetAton flow.modifiedIpSrc (slice ip 12 16))
      (newAddress inetAton flow.modifiedIpDst (slice ip 16 20))
      (flow.modifiedSport.getD (decode .big (slice (ip.drop (headerLength ip)) 0 2)))
      (flow.modifiedDport.getD (decode .big (slice (ip.drop (headerLength ip)) 2 4))) (ip.drop (headerLength ip)) := by
  have htake : (ip.take (headerLength ip)).length = headerLength ip := by rw [List.length_take]; omega
  have heven : (ip.take (headerLength ip)).length % 2 = 0 := by rw [htake, headerLength]; omega
  have hdrop : 8 ≤ (ip.drop (headerLength ip)).length := by rw [List.length_drop]; omega
  have hnine : (ip.take (headerLength ip))[9]? = some 17 := by
    rw [List.getElem?_take_of_lt (by omega), getElem?_of_lt (by omega), ← hproto, protocol]
  have hhead : (ip.take (headerLength ip)).head? = some (ip.getD 0 0) := by
    rw [List.head?_take, if_neg (by omega), head?_getD (by omega)]
  have hown := slice_take_of_le ip 12 (by omega : 16 ≤ headerLength ip)
  have hown' := slice_take_of_le ip 16 (by omega : 20 ≤ headerLength ip)
  rw [rewriteIpv4_eq, hnine] at h
  simp only [Option.bind_eq_bind, Option.bind_some, Option.bind_eq_some_iff, Option.map_eq_some_iff] at h
  obtain ⟨first, hfirst, second, hsecond, trans, hbehind, rfl⟩ := h
  obtain ⟨rfl, hsrc4⟩ := setAddress_own (by decide) (by omega) (fun _ _ => inetAton_length) hfirst
  generalize ip.take (headerLength ip) = header at *
  have hone : (splice header 12 16 _).length = header.length := splice_length (by decide) (by omega) hsrc4
  obtain ⟨rfl, hdst4⟩ := setAddress_own (by decide) (by omega) (fun _ _ => inetAton_length) hsecond
  rw [slice_splice_of_ge (by decide) (by omega) hsrc4 (by decide), hown'] at hdst4 hbehind ⊢
  rw [hown] at hsrc4 hbehind ⊢
  generalize newAddress inetAton flow.modifiedIpSrc (slice ip 12 16) = src at *
  generalize newAddress inetAton flow.modifiedIpDst (slice ip 16 20) = dst at *
  rw [← newHeader] at hbehind ⊢
  have hhl := (newHeader_length heven (by omega) hsrc4 hdst4).trans htake
  obtain ⟨hnewsrc, hnewdst⟩ := newHeader_addresses heven (by omega) hsrc4 hdst4
  have hnewhead : (newHeader header src dst).head? = some (ip.getD 0 0) := by
    rw [List.head?_eq_getElem?, newHeader_getElem? heven (by omega) hsrc4 hdst4 (.inl (by decide)),
      ← List.head?_eq_getElem?, hhead]
  obtain ⟨hsport, hdport, pseudo, hpseudo, rfl⟩ := behindHeader_udp hbehind (by omega)
  refine .ipv4 (fun rest => ?_) hnewsrc hnewdst hsrc4 hdst4 hdrop hsport hdport hpseudo
  have hversion' : (ip.getD 0 0).toNat / 16 = 4 := hversion
  rw [transportOffset_append hnewhead, if_pos hversion', hhl, headerLength]

theorem rewriteIpv6_filledIn (h : rewriteIpv6 flow ip = some out) (hversion : ipVersion ip = 6)
    (hnext : ip.getD 6 0 = 17) (hlen : 48 ≤ ip.length) :
    FilledIn out (newAddress inetPton6 flow.modifiedIpSrc (slice ip 8 24))
      (newAddress inetPton6 flow.modifiedIpDst (slice ip 24 40))
      (flow.modifiedSport.getD (decode .big (slice (ip.drop 40) 0 2)))
      (flow.modifiedDport.getD (decode .big (slice (ip.drop 40) 2 4))) (ip.drop 40) := by
  have htake : (ip.take 40).length = 40 := by rw [List.length_take]; omega
  have hdrop : 8 ≤ (ip.drop 40).length := by rw [List.length_drop]; omega
  have hsix : (ip.take 40)[6]? = some 17 := by
    rw [List.getElem?_take_of_lt (by decide), getElem?_of_lt (by omega), hnext]
  have hhead : (ip.take 40).head? = some (ip.getD 0 0) := by
    rw [List.head?_take, if_neg (by decide), head?_getD (by omega)]
  have hown := slice_take_of_le ip 8 (by decide : 24 ≤ 40)
  have hown' := slice_take_of_le ip 24 (by decide : 40 ≤ 40)
  rw [rewriteIpv6_eq, hsix] at h
  simp only [Option.bind_eq_bind, Option.bind_some, Option.bind_eq_some_iff, Option.map_eq_some_iff] at h
  obtain ⟨first, hfirst, second, hsecond, trans, hbehind, rfl⟩ := h
  have hnewhead := setAddress_head? (setAddress_head? hhead (by decide) hfirst) (by decide) hsecond
  obtain ⟨rfl, hsrc16⟩ := setAddress_own (by decide) (by omega) (fun _ _ => inetPton6_length) hfirst
  generalize ip.take 40 = header at *
  have hone : (splice header 8 24 _).length = header.length := splice_length (by decide) (by omega) hsrc16
  obtain ⟨rfl, hdst16⟩ := setAddress_own (by decide) (by omega) (fun _ _ => inetPton6_length) hsecond
  rw [slice_splice_of_ge (by decide) (by omega) hsrc16 (by decide), hown'] at hdst16 hbehind hnewhead ⊢
  rw [hown] at hsrc16 hone hbehind hnewhead ⊢
  generalize newAddress inetPton6 flow.modifiedIpSrc (slice ip 8 24) = src at *
  generalize newAddress inetPton6 flow.modifiedIpDst (slice ip 24 40) = dst at *
  have hhl := splice_length (by decide) (by omega : 40 ≤ (splice header 8 24 src).length) hdst16
  have hnewsrc : slice (splice (splice header 8 24 src) 24 40 dst) 8 24 = src := by
    rw [slice_splice_of_le (by decide) (by omega), slice_splice (by decide) (by omega) hsrc16]
  have hnewdst := slice_splice (by decide) (by omega : 40 ≤ (splice header 8 24 src).length) hdst16
  obtain ⟨hsport, hdport, pseudo, hpseudo, rfl⟩ := behindHeader_udp hbehind (by omega)
  refine .ipv6 (fun rest => ?_) hnewsrc hnewdst hsrc16 hdst16 hdrop hsport hdport hpseudo
  have hversion' : (ip.getD 0 0).toNat / 16 = 6 := hversion
  rw [transportOffset_append hnewhead, if_neg (by omega), hhl, hone, htake]

theorem newAddress_of_bind {read : Str → Option Bytes} {target : Option Str} {b : Bytes}
    (h : target.bind read = some b) (hnil : read [] = none) (own : Bytes) : newAddress read target own = b := by
  obtain ⟨a, rfl, ha⟩ := Option.bind_eq_some_iff.mp h
  have hne : a ≠ [] := by
    rintro rfl
    rw [hnil] at ha
    cases ha
  rw [newAddress, given_of_ne_nil hne, Option.bind_some, ha, Option.getD_some]

theorem translateIpv6_filledIn (h : translateIpv6 flow ip = some out) (hnext : ip.getD 6 0 = 17)
    (hlen : 48 ≤ ip.length) :
    FilledIn out (newAddress inetAton flow.modifiedIpSrc []) (newAddress inetAton flow.modifiedIpDst [])
      ((nonzero flow.modifiedSport).getD (decode .big (slice (ip.drop 40) 0 2)))
      ((nonzero flow.modifiedDport).getD (decode .big (slice (ip.drop 40) 2 4))) (ip.drop 40) := by
  have hdrop : 8 ≤ (ip.drop 40).length := by rw [List.length_drop]; omega
  have hsix : (ip.take 40)[6]? = some 17 := by
    rw [List.getElem?_take_of_lt (by decide), getElem?_of_lt (by omega), hnext]
  obtain ⟨proto, len, src, dst, trans, hproto, hpack, hsrc, hdst, hbehind, rfl⟩ := translateIpv6_spec flow ip h
  obtain rfl := Option.some.inj (hsix.symm.trans hproto)
  rw [newAddress_of_bind hsrc rfl, newAddress_of_bind hdst rfl]
  obtain ⟨a, -, hsrc⟩ := Option.bind_eq_some_iff.mp hsrc
  obtain ⟨b, -, hdst⟩ := Option.bind_eq_some_iff.mp hdst
  replace hsrc := inetAton_length hsrc
  replace hdst := inetAton_length hdst
  obtain ⟨hhl, hhead, hnewsrc, hnewdst⟩ :=
    translatedIpv4_parts (length_of_pack hpack) hsrc hdst 17
  obtain ⟨hsport, hdport, pseudo, hpseudo, rfl⟩ := translatedBehind_udp hbehind
  refine .ipv4 (fun rest => ?_) hnewsrc hnewdst hsrc hdst hdrop hsport hdport hpseudo
  rw [transportOffset_append hhead, hhl]
  rfl

theorem translateIpv4_filledIn (h : translateIpv4 flow ip = some out) (hproto : protocol ip = 17)
    (hlen : 28 ≤ ip.length) :
    FilledIn out (newAddress inetPton6 flow.modifiedIpSrc []) (newAddress inetPton6 flow.modifiedIpDst [])
      ((nonzero flow.modifiedSport).getD (decode .big (slice (ip.drop 20) 0 2)))
      ((nonzero flow.modifiedDport).getD (decode .big (slice (ip.drop 20) 2 4))) (ip.drop 20) := by
  have hdrop : 8 ≤ (ip.drop 20).length := by rw [List.length_drop]; omega
  have hnine : (ip.take 20)[9]? = some 17 := by
    rw [List.getElem?_take_of_lt (by decide), getElem?_of_lt (by omega), ← hproto, protocol]
  obtain ⟨proto, len, src, dst, trans, hproto', hpack, hsrc, hdst, hbehind, rfl⟩ := translateIpv4_spec flow ip h
  obtain rfl := Option.some.inj (hnine.symm.trans hproto')
  rw [newAddress_of_bind hsrc rfl, newAddress_of_bind hdst rfl]
  obtain ⟨a, -, hsrc⟩ := Option.bind_eq_some_iff.mp hsrc
  obtain ⟨b, -, hdst⟩ := Option.bind_eq_some_iff.mp hdst
  replace hsrc := inetPton6_length hsrc
  replace hdst := inetPton6_length hdst
  have hhl := translatedIpv6_length (length_of_pack hpack) hsrc hdst 17
  obtain ⟨hnewsrc, hnewdst⟩ :=
    translatedIpv6_addresses (length_of_pack hpack) hsrc hdst 17
  obtain ⟨hsport, hdport, pseudo, hpseudo, rfl⟩ := translatedBehind_udp hbehind
  refine .ipv6 (fun rest => ?_) hnewsrc hnewdst hsrc hdst hdrop hsport hdport hpseudo
  have hhead : (translatedIpv6 len src dst 17).head? = some 0x60 := rfl
  rw [transportOffset_append hhead, hhl]
  rfl

end

/-! ### Frames -/

theorem FilledIn.total_lt {out src dst : Bytes} {sport dport : Int} {data : Bytes}
    (h : FilledIn out src dst sport dport data) (hshort : data.length ≤ 65575) :
    udpTotal src dst sport dport data < 2 ^ 32 := by
  obtain ⟨header, pseudo, -, -, -, -, hsrc, hdst, hlen, hsport, hdport⟩ := h
  have hsrc' := total_le src
  have hdst' := total_le dst
  have hlen' := total_le (encode .big 4 data.length)
  have hword := total_le (slice data 4 6)
  have hdata := total_le (data.drop 8)
  rw [encode_length] at hlen'
  rw [slice_length] at hword
  rw [List.length_drop] at hdata
  rw [udpTotal]
  omega

theorem rewritten_filledIn {flow : FlowInfo} {ip out : Bytes} (h : rewritten flow ip = some out) (hudp : UdpDatagram ip) :
    ∃ src dst sport dport data, FilledIn out src dst sport dport data ∧ data.length ≤ ip.length ∧
      rewrittenTotal flow ip = udpTotal src dst sport dport data := by
  have hdrop (n : Nat) : (ip.drop n).length ≤ ip.length := by rw [List.length_drop]; omega
  rw [rewrittenTotal]
  cases (rewritten_branch h).2 with
  | ipv4 hversion htarget hout =>
    rcases hudp with ⟨-, hproto, hihl, hlen⟩ | ⟨hsix, -⟩
    · have hfamily : SameFamily flow ip := .inl ⟨hversion, htarget⟩
      rw [if_pos hfamily, if_pos hversion]
      exact ⟨_, _, _, _, _, rewriteIpv4_filledIn hout hversion hproto hihl hlen, hdrop _, rfl⟩
    · omega
  | ipv6 hversion htarget hout =>
    rcases hudp with ⟨hfour, -⟩ | ⟨-, hnext, hlen⟩
    · omega
    · have hfamily : SameFamily flow ip := .inr ⟨hversion, htarget⟩
      rw [if_pos hfamily, if_neg (by omega)]
      exact ⟨_, _, _, _, _, rewriteIpv6_filledIn hout hversion hnext hlen, hdrop _, rfl⟩
  | toIpv4 hversion htarget hout =>
    rcases hudp with ⟨hfour, -⟩ | ⟨-, hnext, hlen⟩
    · omega
    · rw [if_neg (by simp [SameFamily, hversion, htarget]), if_neg (by omega)]
      exact ⟨_, _, _, _, _, translateIpv6_filledIn hout hnext hlen, hdrop _, rfl⟩
  | toIpv6 hversion htarget hout =>
    rcases hudp with ⟨-, hproto, hihl, hlen⟩ | ⟨hsix, -⟩
    · rw [if_neg (by simp [SameFamily, hversion, htarget]), if_pos hversion]
      exact ⟨_, _, _, _, _, translateIpv4_filledIn hout hproto (by omega), hdrop _, rfl⟩
    · omega

/-- **UDP checksums.** The checksum of a rewritten datagram is not zero exactly when the words that are added up do not
fold to all ones; for a packet of at most 65575 bytes, when their sum is no multiple of 65535. -/
theorem udpChecksum_ne_zero_iff (f : Bytes) (flow : FlowInfo) (hudp : UdpDatagram (f.drop 14))
    (hdone : (rewritten flow (f.drop 14)).isSome) :
    (udpChecksum ((buildModifiedPacket f flow).drop 14) ≠ 0 ↔ fold (rewrittenTotal flow (f.drop 14)) ≠ 65535) ∧
      ((f.drop 14).length ≤ 65575 →
        (fold (rewrittenTotal flow (f.drop 14)) = 65535 ↔ rewrittenTotal flow (f.drop 14) % 65535 = 0)) := by
  obtain ⟨out, hout⟩ := Option.isSome_iff_exists.mp hdone
  have hlong := length_drop_of_rewritten hout
  obtain ⟨src, dst, sport, dport, data, hfilled, hle, htotal⟩ := rewritten_filledIn hout hudp
  rw [buildModifiedPacket_of_rewritten hout, List.drop_left' (by rw [List.length_take]; omega), htotal]
  refine ⟨hfilled.ne_zero_iff, fun hshort => ?_⟩
  have hpos : 0 < udpTotal src dst sport dport data := by
    rw [udpTotal]
    omega
  rw [fold_eq_allOnes_iff (hfilled.total_lt (hle.trans hshort))]
  exact and_iff_right hpos

/-- A UDP datagram over IPv4 with two bytes of data. -/
def datagramFrame (word : Nat) : Bytes :=
  List.replicate 12 1 ++ [0x08, 0x00] ++
    [0x45, 0, 0, 30, 0, 1, 0, 0, 64, 17, 0x66, 0xcc, 10, 0, 0, 1, 10, 0, 0, 2] ++
    [0x12, 0x34, 0, 53, 0, 10, 0, 0] ++ encode .big 2 word

theorem udpChecksum_ne_zero_datagram : udpChecksum ((buildModifiedPacket (datagramFrame 0) fromNine).drop 14) ≠ 0 :=
  (udpChecksum_ne_zero_iff (datagramFrame 0) fromNine (by decide) (by decide +kernel)).1.mpr (by decide +kernel)

/-- For one word of data in 65535, the checksum stored is zero. -/
theorem udpChecksum_eq_zero :
    ¬ ∀ (f : Bytes) (flow : FlowInfo), UdpDatagram (f.drop 14) → (rewritten flow (f.drop 14)).isSome = true →
      udpChecksum ((buildModifiedPacket f flow).drop 14) ≠ 0 := by
  intro hall
  have hne := hall (datagramFrame 0xd966) fromNine (by decide) (by decide +kernel)
  exact hne (by decide +kernel)

end SocketServer.Replay
