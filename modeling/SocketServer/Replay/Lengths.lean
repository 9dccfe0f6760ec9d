import SocketServer.Lib.Inet6
import SocketServer.Replay.Branches

/-!
# Lengths and ethertypes of rewritten frames

A packet of its own family is rewritten in place, by slice assignments that append where the bytes were not captured,
and by `checksum`, which pads the `bytearray` it is given. A translated packet gets another IP header behind the
Ethernet header it came with.

* `buildModifiedPacket_length_iff` : when a frame rewritten in its own family keeps its length;
* `buildModifiedPacket_agrees_iff` : the ethertype of a frame agrees with its IP version unless it was translated.
-/

namespace SocketServer.Replay

open Bytes Inet

/-! ### The steps -/

theorem setAddress_length {read : Str → Option Bytes} {target : Option Str} {i j : Nat} {header out : Bytes}
    (hij : i < j) (hread : ∀ a b, read a = some b → b.length = j - i)
    (h : setAddress read target i j header = some out) :
    header.length ≤ out.length ∧ (out.length = header.length ↔ ((given target).isSome = true → j ≤ header.length)) := by
  rw [setAddress] at h
  cases hgiven : given target with
  | none =>
    rw [hgiven] at h
    obtain rfl := Option.some.inj h
    simp
  | some addr =>
    rw [hgiven] at h
    obtain ⟨b, hb, rfl⟩ := Option.map_eq_some_iff.mp h
    have hlen := hread addr b hb
    exact ⟨le_splice_length hlen, by simp [splice_length_iff hij hlen]⟩

theorem setPort_length {target : Option Int} {i : Nat} {header out : Bytes}
    (h : setPort target i (i + 2) header = some out) :
    header.length ≤ out.length ∧ (out.length = header.length ↔ (target.isSome = true → i + 2 ≤ header.length)) := by
  cases target with
  | none =>
    obtain rfl := Option.some.inj h
    simp
  | some port =>
    obtain ⟨b, hb, rfl⟩ := Option.map_eq_some_iff.mp h
    have hlen : b.length = i + 2 - i := by rw [length_of_packInt hb, Nat.add_sub_cancel_left]
    exact ⟨le_splice_length hlen, by simp [splice_length_iff (Nat.lt_add_of_pos_right (by decide)) hlen]⟩

theorem setPorts_length {flow : FlowInfo} {payload out : Bytes} (h : flow.setPorts payload = some out) :
    payload.length ≤ out.length ∧
      (out.length = payload.length ↔ (flow.modifiedSport.isSome = true → 2 ≤ payload.length) ∧
        (flow.modifiedDport.isSome = true → 4 ≤ payload.length)) := by
  simp only [FlowInfo.setPorts, Option.bind_eq_bind, Option.bind_eq_some_iff] at h
  obtain ⟨sport, hsport, dport, hdport, h⟩ := h
  obtain rfl := Option.some.inj h
  obtain ⟨hle, hiff⟩ := setPort_length hsport
  obtain ⟨hle', hiff'⟩ := setPort_length hdport
  rw [List.length_take] at hle hiff
  rw [List.length_append, List.length_drop]
  grind

theorem translatePorts_length {flow : FlowInfo} {payload trans : Bytes} (h : flow.translatePorts payload = some trans) :
    4 ≤ payload.length ∧ trans.length = payload.length := by
  rw [FlowInfo.translatePorts] at h
  split_ifs at h with hshort
  simp only [Option.bind_eq_bind, Option.bind_eq_some_iff] at h
  obtain ⟨sport, hsport, dport, hdport, h⟩ := h
  obtain rfl := Option.some.inj h
  rw [List.length_append, List.length_append, length_of_packInt hsport, length_of_packInt hdport, List.length_drop]
  omega

theorem fillChecksum_length_iff (pseudo trans : Bytes) (i : Nat) :
    trans.length ≤ (fillChecksum pseudo trans i).length ∧
      ((fillChecksum pseudo trans i).length = trans.length ↔ i + 2 ≤ trans.length) := by
  have hzeroed := le_splice_length (s := trans) (zeros_length i)
  have hzeroed' := splice_length_iff (s := trans) (Nat.lt_add_of_pos_right (by decide)) (zeros_length i)
  rw [fillChecksum]
  generalize splice trans i (i + 2) [0, 0] = zeroed at *
  have hfilled := le_splice_length (s := zeroed) (word_length i (checksum (pseudo ++ zeroed)))
  have hfilled' := splice_length_iff (s := zeroed) (Nat.lt_add_of_pos_right (by decide))
    (word_length i (checksum (pseudo ++ zeroed)))
  omega

theorem fillOwnChecksum_length_iff (header : Bytes) (i : Nat) :
    header.length ≤ (fillOwnChecksum header i).length ∧
      ((fillOwnChecksum header i).length = header.length ↔ i + 2 ≤ header.length ∧ header.length % 2 = 0) := by
  have hzeroed := le_splice_length (s := header) (zeros_length i)
  have hzeroed' := splice_length_iff (s := header) (Nat.lt_add_of_pos_right (by decide)) (zeros_length i)
  have hpadded (s : Bytes) : (padded s).length = s.length + s.length % 2 := by
    rw [padded]
    split_ifs with hodd
    · rw [List.length_append, List.length_singleton, hodd]
    · omega
  rw [fillOwnChecksum]
  have hlen := hpadded (splice header i (i + 2) [0, 0])
  generalize padded (splice header i (i + 2) [0, 0]) = zeroed at *
  have hfilled := le_splice_length (s := zeroed) (word_length i (checksum zeroed))
  have hfilled' := splice_length_iff (s := zeroed) (Nat.lt_add_of_pos_right (by decide)) (word_length i (checksum zeroed))
  omega

/-! ### Behind the header -/

/-- Enough was captured behind the header: the checksum of TCP or UDP, the ports of SCTP that are set, and an ICMP
message of an even length. -/
def TransportKept (flow : FlowInfo) (icmp proto : UInt8) (trans : Bytes) : Prop :=
  if proto = 6 then 18 ≤ trans.length
  else if proto = 17 then 8 ≤ trans.length
  else if proto = 132 then
    (flow.modifiedSport.isSome = true → 2 ≤ trans.length) ∧ (flow.modifiedDport.isSome = true → 4 ≤ trans.length)
  else if proto = icmp then 4 ≤ trans.length ∧ trans.length % 2 = 0
  else True

theorem behindHeader_length {flow : FlowInfo} {icmp proto : UInt8} {payload out : Bytes}
    {pseudo : Bytes → Option Bytes} (h : behindHeader flow icmp proto payload pseudo = some out) :
    payload.length ≤ out.length ∧ (out.length = payload.length ↔ TransportKept flow icmp proto payload) := by
  rw [behindHeader] at h
  split_ifs at h with hports hicmp
  · simp only [Option.bind_eq_bind, Option.bind_eq_some_iff] at h
    obtain ⟨trans, htrans, p, -, h⟩ := h
    obtain rfl := Option.some.inj h
    obtain ⟨hle, hiff⟩ := setPorts_length htrans
    simp only [hasPorts, Bool.or_eq_true, beq_iff_eq, or_assoc] at hports
    rcases hports with rfl | rfl | rfl
    · obtain ⟨hle', hiff'⟩ := fillChecksum_length_iff p trans 16
      have hfill : fillTransport 6 p trans = fillChecksum p trans 16 := rfl
      rw [hfill, TransportKept, if_pos rfl]
      omega
    · obtain ⟨hle', hiff'⟩ := fillChecksum_length_iff p trans 6
      have hfill : fillTransport 17 p trans = fillChecksum p trans 6 := rfl
      rw [hfill, TransportKept, if_neg (by decide), if_pos rfl]
      omega
    · have hfill : fillTransport 132 p trans = trans := rfl
      rw [hfill, TransportKept, if_neg (by decide), if_neg (by decide), if_pos rfl]
      exact ⟨hle, hiff⟩
  all_goals
    obtain rfl := Option.some.inj h
    have hnone : proto ≠ 6 ∧ proto ≠ 17 ∧ proto ≠ 132 := by
      simpa [hasPorts, not_or, and_assoc] using hports
    obtain ⟨h6, h17, h132⟩ := hnone
    rw [TransportKept, if_neg h6, if_neg h17, if_neg h132]
  · rw [if_pos hicmp]
    exact fillOwnChecksum_length_iff payload 2
  · rw [if_neg hicmp]
    simp

/-! ### Packets -/

/-- Enough was captured of a packet: the target addresses in its header, an even part of an IPv4 header, and what is
changed behind the header. -/
def LengthKept (flow : FlowInfo) (ip : Bytes) : Prop :=
  if ipVersion ip = 4 then
    let header := ip.take (headerLength ip)
    ((given flow.modifiedIpSrc).isSome = true → 16 ≤ header.length) ∧
      ((given flow.modifiedIpDst).isSome = true → 20 ≤ header.length) ∧ header.length % 2 = 0 ∧
      TransportKept flow 1 (protocol ip) (ip.drop (headerLength ip))
  else
    ((given flow.modifiedIpSrc).isSome = true → 24 ≤ ip.length) ∧
      ((given flow.modifiedIpDst).isSome = true → 40 ≤ ip.length) ∧
      TransportKept flow 58 (ip.getD 6 0) (ip.drop 40)

instance (flow : FlowInfo) (icmp proto : UInt8) (trans : Bytes) : Decidable (TransportKept flow icmp proto trans) :=
  inferInstanceAs (Decidable (ite _ _ _))

instance (flow : FlowInfo) (ip : Bytes) : Decidable (LengthKept flow ip) := inferInstanceAs (Decidable (ite _ _ _))

theorem isSome_of_target {flow : FlowInfo} {valid : Str → Bool} (h : flow.target valid = true) :
    (given flow.modifiedIpSrc).isSome = true ∨ (given flow.modifiedIpDst).isSome = true := by
  rw [FlowInfo.target, Bool.or_eq_true] at h
  rcases h with h | h
  · obtain ⟨a, ha, -⟩ := (Option.any_eq_true _ _).mp h
    exact .inl (Option.isSome_of_mem ha)
  · obtain ⟨a, ha, -⟩ := (Option.any_eq_true _ _).mp h
    exact .inr (Option.isSome_of_mem ha)

theorem rewriteIpv4_length {flow : FlowInfo} {ip out : Bytes} (hversion : ipVersion ip = 4)
    (htarget : flow.target isIpv4Address = true) (h : rewriteIpv4 flow ip = some out) :
    out.length = ip.length ↔ LengthKept flow ip := by
  rw [rewriteIpv4_eq] at h
  simp only [Option.bind_eq_bind, Option.bind_eq_some_iff, Option.map_eq_some_iff] at h
  obtain ⟨proto, hproto, src, hsrc, dst, hdst, trans, htrans, rfl⟩ := h
  have hten : 9 < (ip.take (headerLength ip)).length := (List.getElem?_eq_some_iff.mp hproto).1
  have hprotocol : protocol ip = proto := by
    rw [protocol, List.getD_eq_getElem?_getD]
    rw [List.length_take] at hten
    rw [List.getElem?_take_of_lt (by omega)] at hproto
    rw [hproto, Option.getD_some]
  have hgiven := isSome_of_target htarget
  obtain ⟨hle, hiff⟩ := setAddress_length (by decide) (fun _ _ => inetAton_length) hsrc
  obtain ⟨hle', hiff'⟩ := setAddress_length (by decide) (fun _ _ => inetAton_length) hdst
  obtain ⟨hle'', hiff''⟩ := fillOwnChecksum_length_iff dst 10
  obtain ⟨hbehind, hkept⟩ := behindHeader_length htrans
  have hsplit : ip.length = (ip.take (headerLength ip)).length + (ip.drop (headerLength ip)).length := by
    rw [← List.length_append, List.take_append_drop]
  rw [LengthKept, if_pos hversion, hprotocol, ← hkept, List.length_append, hsplit]
  dsimp only
  grind

theorem rewriteIpv6_length {flow : FlowInfo} {ip out : Bytes} (hversion : ipVersion ip = 6)
    (h : rewriteIpv6 flow ip = some out) : out.length = ip.length ↔ LengthKept flow ip := by
  rw [rewriteIpv6_eq] at h
  simp only [Option.bind_eq_bind, Option.bind_eq_some_iff, Option.map_eq_some_iff] at h
  obtain ⟨nextHeader, hnext, src, hsrc, header, hdst, trans, htrans, rfl⟩ := h
  have hnextHeader : ip.getD 6 0 = nextHeader := by
    rw [List.getElem?_take_of_lt (by decide)] at hnext
    rw [List.getD_eq_getElem?_getD, hnext, Option.getD_some]
  obtain ⟨hle, hiff⟩ := setAddress_length (by decide) (fun _ _ => inetPton6_length) hsrc
  obtain ⟨hle', hiff'⟩ := setAddress_length (by decide) (fun _ _ => inetPton6_length) hdst
  obtain ⟨hbehind, hkept⟩ := behindHeader_length htrans
  have hsplit : ip.length = (ip.take 40).length + (ip.drop 40).length := by
    rw [← List.length_append, List.take_append_drop]
  have hforty : (ip.take 40).length = min 40 ip.length := List.length_take
  rw [LengthKept, if_neg (by omega), hnextHeader, ← hkept, List.length_append]
  grind

/-! ### Frames -/

theorem length_drop_of_rewritten {f : Bytes} {flow : FlowInfo} {out : Bytes}
    (h : rewritten flow (f.drop 14) = some out) : 14 < f.length := by
  have hne := (rewritten_branch h).1
  by_contra hshort
  exact hne (List.drop_eq_nil_of_le (by omega))

theorem buildModifiedPacket_of_rewritten {f : Bytes} {flow : FlowInfo} {out : Bytes}
    (h : rewritten flow (f.drop 14) = some out) : buildModifiedPacket f flow = f.take 14 ++ out := by
  rw [buildModifiedPacket, h]

/-- **Lengths.** A frame rewritten in its own family keeps its length exactly when enough of it was captured. -/
theorem buildModifiedPacket_length_iff (f : Bytes) (flow : FlowInfo) (hfamily : SameFamily flow (f.drop 14))
    (hdone : (rewritten flow (f.drop 14)).isSome) :
    (buildModifiedPacket f flow).length = f.length ↔ LengthKept flow (f.drop 14) := by
  obtain ⟨out, hout⟩ := Option.isSome_iff_exists.mp hdone
  have hlong := length_drop_of_rewritten hout
  have hlen : out.length = (f.drop 14).length ↔ LengthKept flow (f.drop 14) := by
    cases (rewritten_branch hout).2 with
    | ipv4 hversion htarget hbranch => exact rewriteIpv4_length hversion htarget hbranch
    | ipv6 hversion htarget hbranch => exact rewriteIpv6_length hversion hbranch
    | toIpv4 hversion htarget hbranch =>
      rw [SameFamily, hversion, htarget] at hfamily
      simp at hfamily
    | toIpv6 hversion htarget hbranch =>
      rw [SameFamily, hversion, htarget] at hfamily
      simp at hfamily
  rw [buildModifiedPacket_of_rewritten hout, ← hlen, List.length_append, List.length_take, List.length_drop]
  omega

/-- `10.0.0.9` instead of the sender. -/
def fromNine : FlowInfo := ⟨.uplink, some "10.0.0.9".toList, none, none, none, some 4⟩

theorem buildModifiedPacket_length_syn : (buildModifiedPacket synFrame fromNine).length = synFrame.length :=
  (buildModifiedPacket_length_iff synFrame fromNine (by decide +kernel) (by decide +kernel)).mpr (by decide)

/-- An echo request with one byte of data. -/
def oddEcho : Bytes :=
  List.replicate 12 1 ++ [0x08, 0x00] ++
    [0x45, 0, 0, 29, 0, 1, 0, 0, 64, 1, 0x66, 0xdd, 10, 0, 0, 1, 10, 0, 0, 2] ++
    [8, 0, 0xb5, 0xfd, 0, 1, 0, 1, 0x42]

/-- The echo request gets one byte longer. -/
theorem buildModifiedPacket_oddEcho :
    ¬ ∀ (f : Bytes) (flow : FlowInfo), SameFamily flow (f.drop 14) → (rewritten flow (f.drop 14)).isSome = true →
      (buildModifiedPacket f flow).length = f.length := by
  intro hall
  have hlen := hall oddEcho fromNine (by decide +kernel) (by decide +kernel)
  exact absurd hlen (by decide +kernel)

/-! ### Ethertypes -/

/-- The ethertype of an untagged frame agrees with the version nibble behind the Ethernet header. -/
def EtherTypeAgrees (f : Bytes) : Prop :=
  etherType f = 0x0800 ∧ ipVersion (f.drop 14) = 4 ∨ etherType f = 0x86DD ∧ ipVersion (f.drop 14) = 6

instance (f : Bytes) : Decidable (EtherTypeAgrees f) := inferInstanceAs (Decidable (_ ∨ _))

theorem ipVersion_of_head? {s : Bytes} {first : UInt8} (h : s.head? = some first) : ipVersion s = first.toNat / 16 := by
  cases s with
  | nil => cases h
  | cons b s =>
    obtain rfl := Option.some.inj h
    rfl

theorem setAddress_head? {read : Str → Option Bytes} {target : Option Str} {i j : Nat} {header out : Bytes}
    {first : UInt8} (hfirst : header.head? = some first) (hi : 0 < i)
    (h : setAddress read target i j header = some out) : out.head? = some first := by
  rw [setAddress] at h
  cases hgiven : given target with
  | none =>
    rw [hgiven] at h
    rwa [← Option.some.inj h]
  | some addr =>
    rw [hgiven] at h
    obtain ⟨b, -, rfl⟩ := Option.map_eq_some_iff.mp h
    exact head?_splice hfirst hi

theorem fillOwnChecksum_head? {header : Bytes} {i : Nat} {first : UInt8} (hfirst : header.head? = some first)
    (hi : 0 < i) : (fillOwnChecksum header i).head? = some first := by
  have hzeroed := head?_splice (j := i + 2) (x := [0, 0]) hfirst hi
  rw [fillOwnChecksum]
  generalize splice header i (i + 2) [0, 0] = zeroed at *
  refine head?_splice ?_ hi
  rw [padded]
  split_ifs
  · rw [List.head?_append, hzeroed, Option.some_or]
  · exact hzeroed

theorem ipVersion_rewritten {flow : FlowInfo} {ip out : Bytes} (h : rewritten flow ip = some out) :
    ipVersion out = if SameFamily flow ip then ipVersion ip else if ipVersion ip = 4 then 6 else 4 := by
  obtain ⟨hne, hbranch⟩ := rewritten_branch h
  have hhead : ip.head? = some (ip.getD 0 0) := by
    cases ip with
    | nil => exact absurd rfl hne
    | cons first ip => rfl
  have htake {n : Nat} (hn : 0 < n) : (ip.take n).head? = some (ip.getD 0 0) := by
    rw [List.head?_take, if_neg (by omega), hhead]
  cases hbranch with
  | ipv4 hversion htarget hout =>
    have hfamily : SameFamily flow ip := .inl ⟨hversion, htarget⟩
    rw [if_pos hfamily]
    rw [rewriteIpv4_eq] at hout
    simp only [Option.bind_eq_bind, Option.bind_eq_some_iff, Option.map_eq_some_iff] at hout
    obtain ⟨proto, hproto, src, hsrc, dst, hdst, trans, -, rfl⟩ := hout
    have hnine := (List.getElem?_eq_some_iff.mp hproto).1
    rw [List.length_take] at hnine
    have hheader := fillOwnChecksum_head? (i := 10)
      (setAddress_head? (setAddress_head? (htake (by omega)) (by decide) hsrc) (by decide) hdst) (by decide)
    exact ipVersion_of_head? (by rw [List.head?_append, hheader, Option.some_or])
  | ipv6 hversion htarget hout =>
    have hfamily : SameFamily flow ip := .inr ⟨hversion, htarget⟩
    rw [if_pos hfamily]
    rw [rewriteIpv6_eq] at hout
    simp only [Option.bind_eq_bind, Option.bind_eq_some_iff, Option.map_eq_some_iff] at hout
    obtain ⟨proto, -, src, hsrc, dst, hdst, trans, -, rfl⟩ := hout
    have hheader := setAddress_head? (setAddress_head? (htake (by decide)) (by decide) hsrc) (by decide) hdst
    exact ipVersion_of_head? (by rw [List.head?_append, hheader, Option.some_or])
  | toIpv4 hversion htarget hout =>
    rw [if_neg (by simp [SameFamily, hversion, htarget]), if_neg (by omega)]
    obtain ⟨proto, len, src, dst, trans, -, -, -, -, -, rfl⟩ := translateIpv6_spec flow ip hout
    have hheader : (translatedIpv4 len src dst proto ++ trans).head? = some 0x45 := by
      rw [List.head?_append, translatedIpv4, fillOwnChecksum_head? rfl (by decide), Option.some_or]
    rw [ipVersion_of_head? hheader]
    rfl
  | toIpv6 hversion htarget hout =>
    rw [if_neg (by simp [SameFamily, hversion, htarget]), if_pos hversion]
    obtain ⟨proto, len, src, dst, trans, -, -, -, -, -, rfl⟩ := translateIpv4_spec flow ip hout
    have hheader : (translatedIpv6 len src dst proto ++ trans).head? = some 0x60 := rfl
    rw [ipVersion_of_head? hheader]
    rfl

/-- **Ethertypes.** The ethertype of a rewritten frame agrees with its version exactly when the packet was rewritten in
its own family. -/
theorem buildModifiedPacket_agrees_iff (f : Bytes) (flow : FlowInfo) (hagrees : EtherTypeAgrees f)
    (hdone : (rewritten flow (f.drop 14)).isSome) :
    EtherTypeAgrees (buildModifiedPacket f flow) ↔ SameFamily flow (f.drop 14) := by
  obtain ⟨out, hout⟩ := Option.isSome_iff_exists.mp hdone
  have hlong := length_drop_of_rewritten hout
  have hversion := ipVersion_rewritten hout
  rw [buildModifiedPacket_of_rewritten hout, EtherTypeAgrees, etherType_take_append (by omega),
    List.drop_left' (by rw [List.length_take]; omega), hversion]
  rw [EtherTypeAgrees] at hagrees
  split_ifs with hfamily hfour
  · simpa [hfamily] using hagrees
  all_goals
    simp only [hfamily, iff_false]
    omega

theorem buildModifiedPacket_agrees_syn : EtherTypeAgrees (buildModifiedPacket synFrame fromNine) :=
  (buildModifiedPacket_agrees_iff synFrame fromNine (by decide) (by decide +kernel)).mpr (by decide +kernel)

/-- A UDP datagram over IPv6. -/
def datagramFrame6 : Bytes :=
  List.replicate 12 1 ++ [0x86, 0xDD] ++ [0x60, 0, 0, 0, 0, 8, 17, 64] ++ List.replicate 15 0 ++ [1] ++
    List.replicate 15 0 ++ [2] ++ [0x12, 0x34, 0, 53, 0, 8, 0, 0]

/-- IPv4 addresses for both ends. -/
def toIpv4Hosts : FlowInfo :=
  ⟨.uplink, some "10.0.0.1".toList, some "10.0.0.2".toList, none, none, some 6⟩

/-- The translated datagram is an IPv4 packet in a frame of IPv6. -/
theorem buildModifiedPacket_translated :
    ¬ ∀ (f : Bytes) (flow : FlowInfo), EtherTypeAgrees f → (rewritten flow (f.drop 14)).isSome = true →
      EtherTypeAgrees (buildModifiedPacket f flow) := by
  intro hall
  have hagrees := hall datagramFrame6 toIpv4Hosts (by decide) (by decide +kernel)
  exact absurd hagrees (by decide +kernel)

end SocketServer.Replay
