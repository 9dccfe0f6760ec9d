import SocketServer.Replay.Rewriting

/-!
# Transport checksums of rewritten packets

`build_modified_packet` computes the checksum of a TCP segment or UDP datagram over everything behind the IP header. A
receiver takes the segment to end at the total length of the IP header: the bytes behind it, such as the padding of a
frame of less than 60 bytes, are no part of it.

* `sum_fillChecksum` : the checksum computed over a segment and a trailer verifies over the segment exactly when the
  trailer counts for nothing, as words and as length;
* `modifyPacket_verifies_iff` : when the checksum of a frame that `modify_packet` returns verifies.
-/

namespace SocketServer.Replay

open Bytes Inet OnesComplement

/-! ### Computing a checksum -/

/-- The bytes behind a segment of `n` bytes count for nothing: their words, in the places they have behind the segment,
and their number add up to a multiple of `65535`. -/
def Neutral (n : Nat) (trailer : Bytes) : Prop :=
  (trailer.length + total (List.replicate (n % 2) 0 ++ trailer)) % 65535 = 0

theorem neutral_nil (n : Nat) : Neutral n [] := by
  rw [Neutral, List.append_nil, total_zeros]
  rfl

/-- Padding with zeros counts, unless their number is a multiple of 65535. -/
theorem neutral_zeros_iff (n k : Nat) : Neutral n (List.replicate k 0) ↔ k % 65535 = 0 := by
  rw [Neutral, List.replicate_append_replicate, total_zeros, List.length_replicate, Nat.add_zero]

/-- **The checksum over a segment and a trailer** verifies over the segment exactly when the trailer is neutral. -/
theorem sum_fillChecksum {base trans : Bytes} {i n : Nat} (hbase : base.length = 10) (hi : i % 2 = 0) (hin : i + 2 ≤ n)
    (hn : n ≤ trans.length) (hlen : trans.length < 65536) :
    sum (base ++ encode .big 2 n ++ (fillChecksum (base ++ encode .big 2 trans.length) trans i).take n) = 65535 ↔
      Neutral n (trans.drop n) := by
  have hzeros := zeros_length i
  have hpseudo (k : Nat) (hk : k < 65536) (s : Bytes) :
      total (base ++ encode .big 2 k ++ s) = total base + k + total s := by
    rw [total_append_of_even (by rw [List.length_append, hbase, encode_length]),
      total_append_of_even (by rw [hbase]), total_encode hk]
  -- The words of everything with a zero checksum, which the code adds up.
  generalize hzeroed : splice trans i (i + 2) [0, 0] = zeroed
  have hzlen : zeroed.length = trans.length := by
    rw [← hzeroed]
    exact splice_length (by omega) (by omega) hzeros
  have hzdrop : zeroed.drop n = trans.drop n := by
    rw [← hzeroed]
    exact splice_drop_of_ge (by omega) (by omega) hzeros hin
  have hsplit : total zeroed = total (zeroed.take n) + total (List.replicate (n % 2) 0 ++ trans.drop n) := by
    have happend := total_append (zeroed.take n) (zeroed.drop n)
    rwa [List.take_append_drop, List.length_take, hzlen, Nat.min_eq_left hn, hzdrop] at happend
  -- The words of the segment with the checksum that was computed.
  generalize hc : checksum (base ++ encode .big 2 trans.length ++ zeroed) = c
  have hcle : c ≤ 65535 := hc ▸ checksum_le _
  have hrep : Represents (65535 - c) (total base + trans.length + total zeroed) := by
    rw [← hc, ← hpseudo _ hlen]
    refine checksum_represents ?_
    rw [List.length_append, List.length_append, hbase, encode_length, hzlen]
    omega
  have hfill : fillChecksum (base ++ encode .big 2 trans.length) trans i =
      splice zeroed i (i + 2) (encode .big 2 c) := by
    rw [← hc, ← hzeroed]
    rfl
  have hsegment : total ((splice zeroed i (i + 2) (encode .big 2 c)).take n) = total (zeroed.take n) + c := by
    have hzz : splice (zeroed.take n) i (i + 2) [0, 0] = zeroed.take n := by
      rw [← splice_take_of_ge (by omega) (by omega) hzeros hin, ← hzeroed,
        splice_splice (by omega) (by omega) hzeros]
    have hset := total_splice (s := zeroed.take n) hi (by rw [List.length_take, hzlen]; omega) (n := c) (by omega)
    rw [splice_take_of_ge (by omega) (by omega) (word_length i c) hin, hset, hzz]
  obtain ⟨-, hmod, hzero⟩ := hrep
  rw [hfill, sum_eq_allOnes_iff, hpseudo n (by omega), hsegment, Neutral, List.length_drop]
  omega

/-! ### What a receiver checks -/

/-- The total length of an IPv4 packet. -/
def totalLength (ip : Bytes) : Nat := decode .big (slice ip 2 4)

/-- The segment that the total length delimits. -/
def segment (ip : Bytes) : Bytes := slice ip (headerLength ip) (totalLength ip)

/-- The captured bytes behind it. -/
def trailer (ip : Bytes) : Bytes := ip.drop (totalLength ip)

/-- The pseudo-header and the segment add up to all ones. -/
def ChecksumVerifies (f : Bytes) : Prop :=
  let ip := f.drop 14
  sum (slice ip 12 20 ++ [0, protocol ip] ++ encode .big 2 (segment ip).length ++ segment ip) = 65535

instance (f : Bytes) : Decidable (ChecksumVerifies f) := Nat.decEq _ _

/-- An untagged, unfragmented TCP segment or UDP datagram over IPv4, with its full header. -/
structure TransportFrame (f : Bytes) : Prop where
  ethernet : 14 ≤ f.length
  type : etherType f = 0x0800
  version : ((f.drop 14).getD 0 0).toNat / 16 = 4
  ihl : 20 ≤ headerLength (f.drop 14)
  unfragmented : decode .big (slice (f.drop 14) 6 8) % 0x4000 = 0
  proto : protocol (f.drop 14) = 6 ∨ protocol (f.drop 14) = 17
  header : headerLength (f.drop 14) + (if protocol (f.drop 14) = 6 then 20 else 8) ≤ totalLength (f.drop 14)
  captured : totalLength (f.drop 14) ≤ (f.drop 14).length

theorem delimited_congr {ip ip' : Bytes} (h : ip'.take 10 = ip.take 10) :
    headerLength ip' = headerLength ip ∧ totalLength ip' = totalLength ip ∧ protocol ip' = protocol ip := by
  have hbyte (n : Nat) (hn : n < 10) (s : Bytes) : s.getD n 0 = (s.take 10).getD n 0 := by
    rw [List.getD_eq_getElem?_getD, List.getD_eq_getElem?_getD, List.getElem?_take_of_lt hn]
  have hslice (s : Bytes) : slice s 2 4 = slice (s.take 10) 2 4 := by
    rw [slice, slice, List.drop_take, List.take_take]
    rfl
  refine ⟨?_, ?_, ?_⟩
  · rw [headerLength, headerLength, hbyte 0 (by decide), hbyte 0 (by decide) ip, h]
  · rw [totalLength, totalLength, hslice, hslice ip, h]
  · rw [protocol, protocol, hbyte 9 (by decide), hbyte 9 (by decide) ip, h]

theorem segment_append {ip header : Bytes} (rest : Bytes) (hheader : header.length = headerLength ip)
    (hten : header.take 10 = ip.take 10) (hlong : 10 ≤ header.length) :
    segment (header ++ rest) = rest.take (totalLength ip - headerLength ip) ∧
      protocol (header ++ rest) = protocol ip := by
  have hten' : (header ++ rest).take 10 = ip.take 10 := by rw [List.take_append_of_le_length hlong, hten]
  obtain ⟨hh, ht, hp⟩ := delimited_congr hten'
  refine ⟨?_, hp⟩
  rw [segment, hh, ht, slice_append_right (by omega), hheader, Nat.sub_self, slice, List.drop_zero, Nat.sub_zero]

theorem drop_segment {ip trans : Bytes} (hdrop : trans.drop 4 = ip.drop (headerLength ip + 4))
    (hlong : headerLength ip + 4 ≤ totalLength ip) : trans.drop (totalLength ip - headerLength ip) = trailer ip := by
  have hsplit : trans.drop (totalLength ip - headerLength ip) =
      (trans.drop 4).drop (totalLength ip - headerLength ip - 4) := by
    rw [List.drop_drop]
    congr 1
    omega
  rw [hsplit, hdrop, List.drop_drop, trailer]
  congr 1
  omega

/-! ### Frames as they are returned -/

theorem TransportFrame.packet {f : Bytes} (h : TransportFrame f) : TransportPacket (f.drop 14) :=
  ⟨h.version, h.ihl, h.proto, h.header.trans h.captured⟩

theorem TransportFrame.length_le {f : Bytes} (h : TransportFrame f) :
    headerLength (f.drop 14) + 8 ≤ totalLength (f.drop 14) := by
  have hheader := h.header
  split_ifs at hheader <;> omega

theorem TransportFrame.verifies_iff {f : Bytes} (h : TransportFrame f) {header trans : Bytes}
    (hheader : header.length = headerLength (f.drop 14)) (hten : header.take 10 = (f.drop 14).take 10)
    (hlen : trans.length = (f.drop 14).length - headerLength (f.drop 14))
    (hdrop : trans.drop 4 = (f.drop 14).drop (headerLength (f.drop 14) + 4)) (hshort : trans.length < 65536) :
    ChecksumVerifies (f.take 14 ++ (header ++ fillChecksum
        (slice header 12 20 ++ [0, protocol (f.drop 14)] ++ encode .big 2 trans.length) trans
        (checksumOffset (protocol (f.drop 14))))) ↔
      Neutral (segment (f.drop 14)).length (trailer (f.drop 14)) := by
  have hihl := h.ihl
  have hlong := h.length_le
  have hheader' := h.header
  have hcaptured := h.captured
  have hdropped (s : Bytes) : (f.take 14 ++ s).drop 14 = s :=
    List.drop_left' (by rw [List.length_take, Nat.min_eq_left h.ethernet])
  rw [ChecksumVerifies, hdropped]
  generalize f.drop 14 = ip at *
  generalize hn : totalLength ip - headerLength ip = n
  have hoffset : checksumOffset (protocol ip) % 2 = 0 ∧ checksumOffset (protocol ip) + 2 ≤ n := by
    rw [checksumOffset]
    split_ifs at hheader' ⊢ <;> omega
  obtain ⟨heven, hin⟩ := hoffset
  have hbase : (slice header 12 20 ++ [0, protocol ip]).length = 10 := by
    simp only [List.length_append, slice_length, List.length_cons, List.length_nil]
    omega
  have hfit : n ≤ trans.length := by omega
  have hsum := sum_fillChecksum hbase heven hin hfit hshort
  have hfilled := fillChecksum_length (slice header 12 20 ++ [0, protocol ip] ++ encode .big 2 trans.length)
    (Nat.le_trans hin hfit)
  generalize fillChecksum (slice header 12 20 ++ [0, protocol ip] ++ encode .big 2 trans.length) trans
    (checksumOffset (protocol ip)) = filled at *
  obtain ⟨hsegment, hproto⟩ := segment_append filled hheader hten (by omega)
  have hseglen : (segment ip).length = n := by rw [segment, slice_length]; omega
  have hpseudo : slice (header ++ filled) 12 20 = slice header 12 20 := slice_append_left (by omega)
  have htrailer := drop_segment hdrop (by omega)
  have htake : (filled.take n).length = n := by rw [List.length_take, hfilled]; omega
  rw [hn] at hsegment htrailer
  rw [hsegment, hproto, hpseudo, htake, hsum, htrailer, hseglen]

/-- **Checksums of rewritten packets.** For a replayer that forces something, with forced addresses of IPv4, and a frame
as `TransportFrame` says: when the forced ports and the length of the packet fit, the checksum of the frame returned
verifies exactly when the bytes behind the segment are neutral. Otherwise the frame is returned as it came. -/
theorem modifyPacket_verifies_iff (r : Replayer) (hforced : r.noTupleModification = false)
    (hsrc : ∀ a, r.forceIpSrc = some a → isIpv4Address a) (hdst : ∀ a, r.forceIpDst = some a → isIpv4Address a)
    {f : Bytes} (h : TransportFrame f) (flow : FlowInfo) (direction : Direction) :
    ChecksumVerifies (r.modifyPacket f (some flow) direction).1 ↔
      if r.portsFit = true ∧ (f.drop 14).length - headerLength (f.drop 14) < 65536 then
        Neutral (segment (f.drop 14)).length (trailer (f.drop 14))
      else ChecksumVerifies f := by
  obtain ⟨src, dst, hsrc', hdst'⟩ := h.packet.required_addresses r direction hsrc hdst
  have hihl := h.ihl
  have hlong := h.length_le
  have hcaptured := h.captured
  have htake : ((f.drop 14).take (headerLength (f.drop 14))).length = headerLength (f.drop 14) := by
    rw [List.length_take]
    omega
  have heven : ((f.drop 14).take (headerLength (f.drop 14))).length % 2 = 0 := by rw [htake, headerLength]; omega
  have hfour : 4 ≤ ((f.drop 14).drop (headerLength (f.drop 14))).length := by rw [List.length_drop]; omega
  have hlen := newHeader_length heven (by omega) (inetAton_length hsrc') (inetAton_length hdst')
  have hten := newHeader_take heven (by omega) (inetAton_length hsrc') (inetAton_length hdst')
  rw [modifyPacket_eq r hforced h.ethernet h.type h.packet flow direction hsrc' hdst']
  split_ifs with hfits
  · rw [newPacket]
    refine h.verifies_iff (hlen.trans htake) (hten.trans ?_) ?_ ?_ ?_
    · rw [List.take_take, Nat.min_eq_left (by omega)]
    · rw [newSegment_length _ _ hfour, List.length_drop]
    · rw [newSegment_drop, List.drop_drop]
    · rw [newSegment_length _ _ hfour, List.length_drop]
      exact hfits.2
  · exact Iff.rfl

theorem modifyPacket_verifies_syn :
    ChecksumVerifies (toPort8080.modifyPacket synFrame (some newFlow) .uplink).1 ↔
      if toPort8080.portsFit = true ∧ (synFrame.drop 14).length - headerLength (synFrame.drop 14) < 65536 then
        Neutral (segment (synFrame.drop 14)).length (trailer (synFrame.drop 14))
      else ChecksumVerifies synFrame :=
  modifyPacket_verifies_iff toPort8080 rfl nofun nofun
    ⟨by decide, by decide, by decide, by decide, by decide, by decide, by decide, by decide⟩ newFlow .uplink

/-- The SYN with the padding an Ethernet frame of 60 bytes has. -/
def paddedSyn : Bytes := synFrame ++ List.replicate 6 0

/-- The padded SYN is rewritten, and its checksum does not verify any more. -/
theorem modifyPacket_paddedSyn :
    TransportFrame paddedSyn ∧ toPort8080.noTupleModification = false ∧ ChecksumVerifies paddedSyn ∧
      ¬ ChecksumVerifies (toPort8080.modifyPacket paddedSyn (some newFlow) .uplink).1 :=
  ⟨⟨by decide, by decide, by decide, by decide, by decide, by decide, by decide, by decide⟩, rfl, by decide +kernel,
    by decide +kernel⟩

end SocketServer.Replay
