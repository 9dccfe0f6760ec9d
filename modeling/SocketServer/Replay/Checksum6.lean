import SocketServer.Lib.Inet6
import SocketServer.Replay.Branches

/-!
# Checksums of rewritten IPv6 segments

The branch `IPv6` of `build_modified_packet` for a TCP segment: the header with other addresses, and the segment with
other ports and its checksum over the IPv6 pseudo-header.

* `sum_pseudo_fillChecksum` : the checksum filled in verifies with any pseudo-header of whole words;
* `modifyPacket_verifies6` : the checksum of the frame that `modify_packet` returns verifies.
-/

namespace SocketServer.Replay

open Bytes Inet OnesComplement

/-! ### Computing the checksum -/

/-- **The checksum over a pseudo-header** and a segment verifies, for every length and parity of the segment. -/
theorem sum_pseudo_fillChecksum {pseudo trans : Bytes} {i : Nat} (heven : pseudo.length % 2 = 0) (hi : i % 2 = 0)
    (hin : i + 2 ≤ trans.length) (hshort : pseudo.length + trans.length ≤ 131072) :
    sum (pseudo ++ fillChecksum pseudo trans i) = 65535 := by
  have hzlen : (splice trans i (i + 2) [0, 0]).length = trans.length := splice_length (by omega) hin (zeros_length i)
  have hle := checksum_le (pseudo ++ splice trans i (i + 2) [0, 0])
  have hrep : Represents (65535 - checksum (pseudo ++ splice trans i (i + 2) [0, 0]))
      (total (pseudo ++ splice trans i (i + 2) [0, 0])) := by
    refine checksum_represents ?_
    rw [List.length_append, hzlen]
    exact hshort
  have hword := total_splice hi hin (n := checksum (pseudo ++ splice trans i (i + 2) [0, 0])) (by omega)
  rw [total_append_of_even heven] at hrep
  rw [sum_eq_allOnes_iff, fillChecksum_eq pseudo hin, total_append_of_even heven, hword]
  obtain ⟨-, hmod, hzero⟩ := hrep
  omega

/-! ### What a receiver checks -/

/-- The payload length of an IPv6 packet. -/
def payloadLength (ip : Bytes) : Nat := decode .big (slice ip 4 6)

/-- The segment that the payload length delimits. -/
def segment6 (ip : Bytes) : Bytes := slice ip 40 (40 + payloadLength ip)

/-- The IPv6 pseudo-header and the segment add up to all ones. -/
def ChecksumVerifies6 (f : Bytes) : Prop :=
  let ip := f.drop 14
  sum (slice ip 8 40 ++ encode .big 4 (segment6 ip).length ++ [0, 0, 0, ip.getD 6 0] ++ segment6 ip) = 65535

instance (f : Bytes) : Decidable (ChecksumVerifies6 f) := Nat.decEq _ _

/-- An untagged frame with a TCP segment over IPv6, all of which was captured. -/
structure TcpFrame6 (f : Bytes) : Prop where
  ethernet : 14 ≤ f.length
  type : etherType f = 0x86DD
  version : ipVersion (f.drop 14) = 6
  nextHeader : (f.drop 14).getD 6 0 = 6
  captured : (f.drop 14).length = 40 + payloadLength (f.drop 14)
  header : 20 ≤ payloadLength (f.drop 14)

/-! ### The branch -/

theorem parseIp_of_version6 {ip : Bytes} (hversion : ipVersion ip = 6) (hlen : 40 ≤ ip.length) :
    ∃ src dst, parseIp ip = some ⟨.ipv6, src, dst, (ip.getD 6 0).toNat, ip.drop 40⟩ ∧
      inetPton6 src = some (slice ip 8 24) ∧ inetPton6 dst = some (slice ip 24 40) := by
  obtain ⟨src, hsrc, hsrc'⟩ := inetPton6_inetNtop6 (b := slice ip 8 24) (by rw [slice_length]; omega)
  obtain ⟨dst, hdst, hdst'⟩ := inetPton6_inetNtop6 (b := slice ip 24 40) (by rw [slice_length]; omega)
  have hfirst : ip[0]? = some (ip.getD 0 0) := getElem?_of_lt (by omega)
  have hnext : ip[6]? = some (ip.getD 6 0) := getElem?_of_lt (by omega)
  have hsix : (ip.getD 0 0).toNat / 16 = 6 := hversion
  refine ⟨src, dst, ?_, hsrc', hdst'⟩
  simp only [parseIp, hfirst, hnext, hsix, hsrc, hdst, Option.bind_eq_bind, Option.bind_some]
  rfl

/-- The header with these addresses. -/
def newHeader6 (header src dst : Bytes) : Bytes := splice (splice header 8 24 src) 24 40 dst

/-- What the branch `IPv6` puts behind the Ethernet header for a TCP segment, with targets that fit. -/
def newPacket6 (ip src dst : Bytes) (sport dport : Int) : Bytes :=
  let trans := newSegment sport dport (ip.drop 40)
  newHeader6 (ip.take 40) src dst ++
    fillChecksum (src ++ dst ++ encode .big 4 trans.length ++ [0, 0, 0, 6]) trans 16

section

variable {header src dst : Bytes} (hheader : header.length = 40) (hsrc : src.length = 16) (hdst : dst.length = 16)

include hheader hsrc hdst

theorem newHeader6_length : (newHeader6 header src dst).length = 40 := by
  have hone : (splice header 8 24 src).length = header.length := splice_length (by decide) (by omega) hsrc
  rw [newHeader6, splice_length (by decide) (by omega) hdst, hone, hheader]

theorem newHeader6_addresses :
    slice (newHeader6 header src dst) 8 24 = src ∧ slice (newHeader6 header src dst) 24 40 = dst := by
  have hone : (splice header 8 24 src).length = header.length := splice_length (by decide) (by omega) hsrc
  rw [newHeader6]
  constructor
  · rw [slice_splice_of_le (by decide) (by omega), slice_splice (by decide) (by omega) hsrc]
  · rw [slice_splice (by decide) (by omega) hdst]

omit hdst in
theorem newHeader6_take : (newHeader6 header src dst).take 8 = header.take 8 := by
  have hone : (splice header 8 24 src).length = header.length := splice_length (by decide) (by omega) hsrc
  rw [newHeader6, splice_take_of_le (by decide) (by omega), splice_take_of_le (by decide) (by omega)]

end

theorem rewritten_of_ipv6 {flow : FlowInfo} {ip : Bytes} (hversion : ipVersion ip = 6)
    (htarget : flow.target isIpv6Address = true) : rewritten flow ip = rewriteIpv6 flow ip := by
  cases ip with
  | nil => cases hversion
  | cons first ip =>
    have hsix : first.toNat / 16 = 6 := hversion
    simp [rewritten, hsix, htarget]

theorem ne_nil_of_pton6 {a : Str} {b : Bytes} (h : inetPton6 a = some b) : a ≠ [] := by
  rintro rfl
  cases h

theorem rewritten_tcp6 {ip : Bytes} (hversion : ipVersion ip = 6) (hnext : ip.getD 6 0 = 6) (hlen : 60 ≤ ip.length)
    (hshort : ip.length < 65600) {flow : FlowInfo} {a b : Str} {src dst : Bytes} {sport dport : Int}
    (ha : flow.modifiedIpSrc = some a) (hsrc : inetPton6 a = some src) (hb : flow.modifiedIpDst = some b)
    (hdst : inetPton6 b = some dst) (hsport : flow.modifiedSport = some sport)
    (hdport : flow.modifiedDport = some dport) (hfits : (portFits sport && portFits dport) = true) :
    rewritten flow ip = some (newPacket6 ip src dst sport dport) := by
  have htarget : flow.target isIpv6Address = true := by
    rw [FlowInfo.target, ha, given_of_ne_nil (ne_nil_of_pton6 hsrc), Option.any_some, isIpv6Address, hsrc]
    rfl
  have hsix : (ip.take 40)[6]? = some 6 := by
    rw [List.getElem?_take_of_lt (by decide), getElem?_of_lt (by omega), hnext]
  have hfour : 4 ≤ (ip.drop 40).length := by rw [List.length_drop]; omega
  have hseg := newSegment_length sport dport hfour
  have hpow : (newSegment sport dport (ip.drop 40)).length < 256 ^ 4 := by
    rw [hseg, List.length_drop]
    omega
  have hheader : (ip.take 40).length = 40 := by rw [List.length_take]; omega
  obtain ⟨hnewsrc, hnewdst⟩ := newHeader6_addresses hheader (inetPton6_length hsrc) (inetPton6_length hdst)
  rw [newHeader6] at hnewsrc hnewdst
  rw [rewritten_of_ipv6 hversion htarget, rewriteIpv6_eq, hsix, ha, hb]
  simp only [setAddress_eq inetPton6 (ne_nil_of_pton6 hsrc), setAddress_eq inetPton6 (ne_nil_of_pton6 hdst), hsrc, hdst,
    Option.map_some, Option.bind_eq_bind, Option.bind_some]
  rw [behindHeader, if_pos (by rfl), setPorts_eq hsport hdport hfour, if_pos hfits, ← newSegment]
  simp only [pseudoIpv6, pack_of_lt hpow, hnewsrc, hnewdst, Option.map_some, Option.bind_eq_bind, Option.bind_some]
  rfl

theorem segment6_append {ip header rest : Bytes} (hheader : header.length = 40) (height : header.take 8 = ip.take 8)
    (hrest : rest.length = payloadLength ip) :
    segment6 (header ++ rest) = rest ∧ (header ++ rest).getD 6 0 = ip.getD 6 0 := by
  have hten : (header ++ rest).take 8 = ip.take 8 := by rw [List.take_append_of_le_length (by omega), height]
  have hpayload : payloadLength (header ++ rest) = payloadLength ip := by
    rw [payloadLength, payloadLength, ← slice_take_of_le _ 4 (by decide : 6 ≤ 8), hten, slice_take_of_le _ 4 (by decide)]
  constructor
  · rw [segment6, hpayload, slice_append_right (by omega), hheader, Nat.sub_self, slice_all (by omega)]
  · rw [List.getD_eq_getElem?_getD, List.getD_eq_getElem?_getD, ← List.getElem?_take_of_lt (by decide : 6 < 8), hten,
      List.getElem?_take_of_lt (by decide)]

theorem newPacket6_verifies {ip : Bytes} (hnext : ip.getD 6 0 = 6) (hcaptured : ip.length = 40 + payloadLength ip)
    (hlong : 20 ≤ payloadLength ip) {src dst : Bytes} (hsrc : src.length = 16) (hdst : dst.length = 16)
    (sport dport : Int) :
    let new := newPacket6 ip src dst sport dport
    sum (slice new 8 40 ++ encode .big 4 (segment6 new).length ++ [0, 0, 0, new.getD 6 0] ++ segment6 new) = 65535 := by
  have hpayload : payloadLength ip < 65536 := port_lt ip 4
  have hheader : (ip.take 40).length = 40 := by rw [List.length_take]; omega
  have hhl := newHeader6_length hheader hsrc hdst
  have height : (newHeader6 (ip.take 40) src dst).take 8 = (ip.take 40).take 8 := newHeader6_take hheader hsrc
  obtain ⟨hnewsrc, hnewdst⟩ := newHeader6_addresses hheader hsrc hdst
  have hdrop : (ip.drop 40).length = payloadLength ip := by rw [List.length_drop]; omega
  have hseg := newSegment_length sport dport (by omega : 4 ≤ (ip.drop 40).length)
  rw [newPacket6]
  generalize newHeader6 (ip.take 40) src dst = header at *
  generalize newSegment sport dport (ip.drop 40) = trans at *
  have hpseudo : (src ++ dst ++ encode .big 4 trans.length ++ [0, 0, 0, 6]).length = 40 := by
    simp only [List.length_append, hsrc, hdst, encode_length, List.length_cons, List.length_nil]
  have hfilled := fillChecksum_length (src ++ dst ++ encode .big 4 trans.length ++ [0, 0, 0, 6])
    (by omega : 16 + 2 ≤ trans.length)
  have hsum := sum_pseudo_fillChecksum (by omega : _ % 2 = 0) (by decide) (by omega : 16 + 2 ≤ trans.length)
    (by omega : (src ++ dst ++ encode .big 4 trans.length ++ [0, 0, 0, 6]).length + _ ≤ _)
  generalize fillChecksum (src ++ dst ++ encode .big 4 trans.length ++ [0, 0, 0, 6]) trans 16 = filled at *
  rw [List.take_take] at height
  have hrest : filled.length = payloadLength ip := by omega
  obtain ⟨hsegment, hsix⟩ := segment6_append hhl height hrest
  dsimp only
  rw [hsegment, hsix, hnext, hfilled, slice_append_left (by omega), ← slice_append_slice _ (by decide : 8 ≤ 24) (by decide),
    hnewsrc, hnewdst]
  exact hsum

/-- **Checksums of rewritten IPv6 segments.** For a replayer that forces something, with forced addresses of IPv6 and
forced ports that fit, the checksum of the frame returned verifies. -/
theorem modifyPacket_verifies6 (r : Replayer) (hforced : r.noTupleModification = false)
    (hsrc : ∀ a, r.forceIpSrc = some a → isIpv6Address a = true)
    (hdst : ∀ a, r.forceIpDst = some a → isIpv6Address a = true) (hfits : r.portsFit = true) {f : Bytes}
    (h : TcpFrame6 f) (flow : FlowInfo) (direction : Direction) :
    ChecksumVerifies6 (r.modifyPacket f (some flow) direction).1 := by
  have hcaptured := h.captured
  have hlong := h.header
  have hversion := h.version
  have hnext := h.nextHeader
  have hpayload : payloadLength (f.drop 14) < 65536 := port_lt (f.drop 14) 4
  have hdropped (s : Bytes) : (f.take 14 ++ s).drop 14 = s :=
    List.drop_left' (by rw [List.length_take, Nat.min_eq_left h.ethernet])
  obtain ⟨own, own', hparsed, hown, hown'⟩ := parseIp_of_version6 hversion (by omega)
  have hfour : 4 ≤ ((f.drop 14).drop 40).length := by rw [List.length_drop]; omega
  obtain ⟨flags, hports⟩ := parseTransport_of_length (.inl hnext) hfour
  generalize hsp : decode .big (slice ((f.drop 14).drop 40) 0 2) = sp at hports
  generalize hdp : decode .big (slice ((f.drop 14).drop 40) 2 4) = dp at hports
  have hfits' := required_portsFit r direction own own' (hsp ▸ port_lt _ 0) (hdp ▸ port_lt _ 2)
  rw [hfits] at hfits'
  obtain ⟨ha, hb⟩ := targets_required r direction flow .ipv6 own own' ((f.drop 14).getD 6 0).toNat ((f.drop 14).drop 40)
    sp dp
  obtain ⟨hsport, hdport⟩ := targets_ports r direction flow .ipv6 own own' hports
  obtain ⟨src, dst, hsrc', hdst'⟩ :=
    @exists_required r direction inetPton6 hsrc hdst ⟨own, own', sp, dp⟩ ⟨_, hown⟩ ⟨_, hown'⟩
  rw [← hparsed] at ha hb hsport hdport
  generalize r.required direction ⟨own, own', sp, dp⟩ = t at *
  have hrewritten := rewritten_tcp6 hversion hnext (by omega) (by omega) ha hsrc' hb hdst' hsport hdport hfits'
  rw [modifyPacket_of_forced r hforced h.ethernet (.inr h.type), buildModifiedPacket, hrewritten, ChecksumVerifies6,
    hdropped]
  exact newPacket6_verifies hnext hcaptured hlong (inetPton6_length hsrc') (inetPton6_length hdst') _ _

/-- A TCP segment over IPv6 without data. -/
def segmentFrame6 : Bytes :=
  List.replicate 12 1 ++ [0x86, 0xDD] ++ [0x60, 0, 0, 0, 0, 20, 6, 64] ++ List.replicate 15 0 ++ [1] ++
    List.replicate 15 0 ++ [2] ++ [0x12, 0x34, 0, 80, 0, 0, 0, 1, 0, 0, 0, 0, 0x50, 2, 0x20, 0, 0, 0, 0, 0]

/-- `2001:db8::9` instead of the addressee and port 8080. -/
def toOther6 : Replayer := ⟨none, some "2001:db8::9".toList, none, some 8080, none, none⟩

theorem modifyPacket_verifies6_segment :
    ChecksumVerifies6 (toOther6.modifyPacket segmentFrame6 (some newFlow) .uplink).1 :=
  modifyPacket_verifies6 toOther6 rfl nofun
    (by
      rintro a ⟨⟩
      decide +kernel)
    rfl ⟨by decide, by decide, by decide, by decide, by decide, by decide⟩ newFlow .uplink

end SocketServer.Replay
