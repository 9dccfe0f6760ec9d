import SocketServer.Replay.Rewriting

/-!
# The branches of `build_modified_packet`

A packet is rewritten in its own family or translated to the other one, and what stands behind the IP header is a
segment with ports, an ICMP message or something else. One lemma for each branch says what it returns; the
results about lengths, ethertypes, fragments and checksums rest on these.

* `rewritten_branch` : which branch a packet takes;
* `rewriteIpv4_eq`, `rewriteIpv6_eq`, `translateIpv6_spec`, `translateIpv4_spec` : what it returns.
-/

namespace SocketServer.Replay

open Bytes Inet

/-! ### The choice -/

/-- The version nibble. -/
def ipVersion (ip : Bytes) : Nat := (ip.getD 0 0).toNat / 16

/-- What `build_modified_packet` puts behind the Ethernet header, by its branch. -/
inductive Branch (flow : FlowInfo) (ip out : Bytes) : Prop
  | ipv4 (hversion : ipVersion ip = 4) (htarget : flow.target isIpv4Address = true)
      (hout : rewriteIpv4 flow ip = some out)
  | ipv6 (hversion : ipVersion ip = 6) (htarget : flow.target isIpv6Address = true)
      (hout : rewriteIpv6 flow ip = some out)
  | toIpv4 (hversion : ipVersion ip = 6) (htarget : flow.target isIpv6Address = false)
      (hout : translateIpv6 flow ip = some out)
  | toIpv6 (hversion : ipVersion ip = 4) (htarget : flow.target isIpv4Address = false)
      (hout : translateIpv4 flow ip = some out)

theorem rewritten_branch {flow : FlowInfo} {ip out : Bytes} (h : rewritten flow ip = some out) :
    ip ≠ [] ∧ Branch flow ip out := by
  cases ip with
  | nil => cases h
  | cons first ip =>
    refine ⟨List.cons_ne_nil _ _, ?_⟩
    have hbranches : rewritten flow (first :: ip) =
        if ipVersion (first :: ip) = 4 ∧ flow.target isIpv4Address then rewriteIpv4 flow (first :: ip)
        else if ipVersion (first :: ip) = 6 ∧ flow.target isIpv6Address then rewriteIpv6 flow (first :: ip)
        else if ipVersion (first :: ip) = 6 ∧ flow.target isIpv4Address then translateIpv6 flow (first :: ip)
        else if ipVersion (first :: ip) = 4 ∧ flow.target isIpv6Address then translateIpv4 flow (first :: ip)
        else none := rfl
    rw [hbranches] at h
    split_ifs at h with h4 h6 hto4 hto6
    · exact .ipv4 h4.1 h4.2 h
    · exact .ipv6 h6.1 h6.2 h
    · exact .toIpv4 hto4.1 (Bool.eq_false_iff.mpr fun htarget => h6 ⟨hto4.1, htarget⟩) h
    · exact .toIpv6 hto6.1 (Bool.eq_false_iff.mpr fun htarget => h4 ⟨hto6.1, htarget⟩) h

/-- The packet is rewritten in its own family. -/
def SameFamily (flow : FlowInfo) (ip : Bytes) : Prop :=
  ipVersion ip = 4 ∧ flow.target isIpv4Address = true ∨ ipVersion ip = 6 ∧ flow.target isIpv6Address = true

instance (flow : FlowInfo) (ip : Bytes) : Decidable (SameFamily flow ip) := inferInstanceAs (Decidable (_ ∨ _))

/-! ### Addresses -/

theorem given_of_ne_nil {s : Str} (h : s ≠ []) : given (some s) = some s := by
  cases s with
  | nil => exact absurd rfl h
  | cons c s => rfl

theorem setAddress_eq (read : Str → Option Bytes) {addr : Str} (hne : addr ≠ []) (i j : Nat) (header : Bytes) :
    setAddress read (some addr) i j header = (read addr).map (splice header i j) := by
  rw [setAddress, given_of_ne_nil hne]

/-! ### Behind the header -/

/-- What a packet of its own family has behind its header: a segment gets its ports and its checksum over a
pseudo-header, a message of the protocol `icmp` gets its checksum, and anything else stays. -/
def behindHeader (flow : FlowInfo) (icmp proto : UInt8) (payload : Bytes) (pseudo : Bytes → Option Bytes) :
    Option Bytes :=
  if hasPorts proto then do
    let trans ← flow.setPorts payload
    let pseudo ← pseudo trans
    some (fillTransport proto pseudo trans)
  else if proto = icmp then some (fillOwnChecksum payload 2)
  else some payload

/-- The pseudo-header of a segment behind an IPv4 header. -/
def pseudoIpv4 (header : Bytes) (proto : UInt8) (trans : Bytes) : Option Bytes :=
  (pack .big 2 trans.length).map fun len => slice header 12 20 ++ [0, proto] ++ len

/-- The pseudo-header of a segment behind an IPv6 header. -/
def pseudoIpv6 (header : Bytes) (proto : UInt8) (trans : Bytes) : Option Bytes :=
  (pack .big 4 trans.length).map fun len => slice header 8 24 ++ slice header 24 40 ++ len ++ [0, 0, 0, proto]

/-! ### The branches -/

section

variable (flow : FlowInfo) (ip : Bytes)

/-- **The branch `IPv4`**: the header with its addresses and its checksum, and what is behind it. -/
theorem rewriteIpv4_eq :
    rewriteIpv4 flow ip = (do
      let proto ← (ip.take (headerLength ip))[9]?
      let src ← setAddress inetAton flow.modifiedIpSrc 12 16 (ip.take (headerLength ip))
      let dst ← setAddress inetAton flow.modifiedIpDst 16 20 src
      let header := fillOwnChecksum dst 10
      (behindHeader flow 1 proto (ip.drop (headerLength ip)) (pseudoIpv4 header proto)).map (header ++ ·)) := by
  cases ip with
  | nil => rfl
  | cons first ip =>
    have hfirst : (first :: ip)[0]? = some first := rfl
    have hlen : first.toNat % 16 * 4 = headerLength (first :: ip) := rfl
    simp only [rewriteIpv4, hfirst, hlen, Option.bind_eq_bind, Option.bind_some]
    refine Option.bind_congr fun proto _ => Option.bind_congr fun src _ => Option.bind_congr fun dst _ => ?_
    rw [behindHeader]
    split_ifs
    · cases flow.setPorts ((first :: ip).drop (headerLength (first :: ip))) with
      | none => rfl
      | some trans =>
        simp only [Option.bind_some, pseudoIpv4, Option.bind_eq_bind, Option.bind_map, Option.map_bind]
        rfl
    · rfl
    · rfl

theorem rewriteIpv6_eq :
    rewriteIpv6 flow ip = (do
      let nextHeader ← (ip.take 40)[6]?
      let src ← setAddress inetPton6 flow.modifiedIpSrc 8 24 (ip.take 40)
      let header ← setAddress inetPton6 flow.modifiedIpDst 24 40 src
      (behindHeader flow 58 nextHeader (ip.drop 40) (pseudoIpv6 header nextHeader)).map (header ++ ·)) := by
  simp only [rewriteIpv6, Option.bind_eq_bind]
  refine Option.bind_congr fun nextHeader _ => Option.bind_congr fun src _ => Option.bind_congr fun header _ => ?_
  rw [behindHeader]
  split_ifs
  · cases flow.setPorts (ip.drop 40) with
    | none => rfl
    | some trans =>
      simp only [Option.bind_some, pseudoIpv6, Option.bind_eq_bind, Option.bind_map, Option.map_bind]
      rfl
  · rfl
  · rfl

/-- The header of a packet translated to IPv4. -/
def translatedIpv4 (totalLength src dst : Bytes) (proto : UInt8) : Bytes :=
  fillOwnChecksum ([0x45, 0] ++ totalLength ++ [0, 0, 0, 0, 64, proto, 0, 0] ++ src ++ dst) 10

/-- The header of a packet translated to IPv6. -/
def translatedIpv6 (payloadLength src dst : Bytes) (proto : UInt8) : Bytes :=
  [0x60, 0, 0, 0] ++ payloadLength ++ [proto, 64] ++ src ++ dst

theorem translatedIpv6_length {len src dst : Bytes} (hlen : len.length = 2) (hsrc : src.length = 16)
    (hdst : dst.length = 16) (proto : UInt8) : (translatedIpv6 len src dst proto).length = 40 := by
  simp only [translatedIpv6, List.length_append, List.length_cons, List.length_nil, hlen, hsrc, hdst]

/-- What a translated packet has behind its header. -/
def translatedBehind (flow : FlowInfo) (proto : UInt8) (payload : Bytes) (pseudo : Bytes → Option Bytes) :
    Option Bytes :=
  if hasPorts proto then do
    let trans ← flow.translatePorts payload
    let pseudo ← pseudo trans
    some (fillTransport proto pseudo trans)
  else some payload

theorem translateIpv6_spec {out : Bytes} (h : translateIpv6 flow ip = some out) :
    ∃ proto len src dst trans, (ip.take 40)[6]? = some proto ∧
      pack .big 2 (20 + (ip.drop 40).length) = some len ∧ flow.modifiedIpSrc.bind inetAton = some src ∧
      flow.modifiedIpDst.bind inetAton = some dst ∧
      translatedBehind flow proto (ip.drop 40) (pseudoIpv4 (translatedIpv4 len src dst proto) proto) = some trans ∧
      out = translatedIpv4 len src dst proto ++ trans := by
  rw [translateIpv6, Option.bind_eq_bind, Option.bind_eq_some_iff] at h
  obtain ⟨proto, hproto, h⟩ := h
  split_ifs at h with hother hports
  all_goals
    simp only [Option.bind_eq_bind, Option.bind_eq_some_iff] at h
    obtain ⟨len, hlen, src, hsrc, dst, hdst, h⟩ := h
    rw [← Option.bind_eq_some_iff] at hsrc hdst
    refine ⟨proto, len, src, dst, ?_⟩
    rw [translatedBehind]
  · obtain ⟨trans, htrans, transLen, htransLen, h⟩ := h
    refine ⟨_, hproto, hlen, hsrc, hdst, ?_, (Option.some.inj h).symm⟩
    simp only [if_pos hports, htrans, Option.bind_eq_bind, Option.bind_some, pseudoIpv4, htransLen, Option.map_some]
    rfl
  · exact ⟨_, hproto, hlen, hsrc, hdst, if_neg hports, (Option.some.inj h).symm⟩

theorem translateIpv4_spec {out : Bytes} (h : translateIpv4 flow ip = some out) :
    ∃ proto len src dst trans, (ip.take 20)[9]? = some proto ∧
      pack .big 2 (ip.drop 20).length = some len ∧ flow.modifiedIpSrc.bind inetPton6 = some src ∧
      flow.modifiedIpDst.bind inetPton6 = some dst ∧
      translatedBehind flow proto (ip.drop 20) (pseudoIpv6 (translatedIpv6 len src dst proto) proto) = some trans ∧
      out = translatedIpv6 len src dst proto ++ trans := by
  rw [translateIpv4, Option.bind_eq_bind, Option.bind_eq_some_iff] at h
  obtain ⟨proto, hproto, h⟩ := h
  split_ifs at h with hother hports
  all_goals
    simp only [Option.bind_eq_bind, Option.bind_eq_some_iff] at h
    obtain ⟨len, hlen, src, hsrc, dst, hdst, h⟩ := h
    rw [← Option.bind_eq_some_iff] at hsrc hdst
    refine ⟨proto, len, src, dst, ?_⟩
    rw [translatedBehind]
  · obtain ⟨trans, htrans, transLen, htransLen, h⟩ := h
    refine ⟨_, hproto, hlen, hsrc, hdst, ?_, (Option.some.inj h).symm⟩
    simp only [if_pos hports, htrans, Option.bind_eq_bind, Option.bind_some, pseudoIpv6, htransLen, Option.map_some]
    rfl
  · exact ⟨_, hproto, hlen, hsrc, hdst, if_neg hports, (Option.some.inj h).symm⟩

end

end SocketServer.Replay
