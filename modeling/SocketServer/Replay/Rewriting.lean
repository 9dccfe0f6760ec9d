import SocketServer.Replay.Tagging

/-!
# Rewritten packets (`modify_packet`)

What `modify_packet` makes of a TCP segment or UDP datagram over IPv4: the header with other addresses and its checksum,
and the segment with other ports and its checksum.

* `rewritten_eq` : the branch `IPv4` of `build_modified_packet`;
* `sum_stored` : a checksum stored in a field of zeros verifies;
* `sum_fillOwnChecksum` : the checksum of a header verifies;
* `modifyPacket_rewrittenTo` : the frame returned has the addresses and ports required, a header checksum that verifies,
  and is the same frame elsewhere.
-/

namespace SocketServer.Replay

open Bytes Inet OnesComplement

/-! ### Computing a checksum -/

theorem zeros_length (i : Nat) : ([0, 0] : Bytes).length = i + 2 - i := (Nat.add_sub_cancel_left i 2).symm

theorem total_padded (data : Bytes) : total (padded data) = total data := by
  rw [padded]
  split_ifs with h
  · exact total_append_zero h
  · rfl

theorem checksum_le (data : Bytes) : checksum data ≤ 65535 := Nat.sub_le _ _

theorem checksum_represents {data : Bytes} (h : data.length ≤ 131072) :
    Represents (65535 - checksum data) (total data) := by
  have hfold : checksum data = 65535 - fold (total (padded data)) := rfl
  have hlt : fold (total data) < 65536 := Nat.mod_lt _ (by decide)
  have htotal := total_le data
  have hcomplement : 65535 - (65535 - fold (total data)) = fold (total data) := by omega
  rw [hfold, total_padded, hcomplement]
  exact fold_represents (by omega)

theorem word_length (i n : Nat) : (encode .big 2 n).length = i + 2 - i := by
  rw [encode_length, Nat.add_sub_cancel_left]

/-- **A stored checksum verifies**: in an aligned field that was zero. -/
theorem sum_stored {data : Bytes} {i : Nat} (hshort : data.length ≤ 131072) (hword : i % 2 = 0)
    (hi : i + 2 ≤ data.length) (hzeros : slice data i (i + 2) = [0, 0]) :
    sum (splice data i (i + 2) (encode .big 2 (checksum data))) = 65535 := by
  have hle := checksum_le data
  have hsplice := total_splice hword hi (n := checksum data) (by omega)
  have hself : splice data i (i + 2) [0, 0] = data :=
    (splice_eq_self_iff (by omega) hi (zeros_length i)).mpr hzeros
  obtain ⟨-, hmod, hzero⟩ := checksum_represents hshort
  rw [sum_eq_allOnes_iff, hsplice, hself]
  omega

/-- **The checksum of the replayer**, of a string of at most 131072 bytes: the complement of the sum of its words with
all carries folded, which is their sum with the carry going round. Stored in an aligned field of zeros, it makes the sum
of the string all ones. -/
theorem checksum_eq_reference {data : Bytes} (hshort : data.length ≤ 131072) :
    checksum data = 65535 - foldAll (total (padded data)) ∧ checksum data = 65535 - sum (padded data) ∧
      checksum data = 65535 - sum data ∧
        ∀ i, i % 2 = 0 → i + 2 ≤ data.length → slice data i (i + 2) = [0, 0] →
          sum (splice data i (i + 2) (encode .big 2 (checksum data))) = 65535 := by
  have hfold : checksum data = 65535 - fold (total (padded data)) := rfl
  have htotal := total_le data
  have hsmall : total (padded data) < 2 ^ 32 := by
    rw [total_padded]
    omega
  have hall : checksum data = 65535 - foldAll (total (padded data)) := by rw [hfold, fold_eq_foldAll hsmall]
  refine ⟨hall, ?_, ?_, fun i hword hi hzeros => sum_stored hshort hword hi hzeros⟩
  · rw [hall, foldAll_total]
  · rw [hall, total_padded, foldAll_total]

/-- Three bytes, with a field of zeros at their start. -/
theorem checksum_eq_reference_three :
    checksum [0, 0, 0xff] = 65535 - foldAll (total (padded [0, 0, 0xff])) ∧
      checksum [0, 0, 0xff] = 65535 - sum (padded [0, 0, 0xff]) ∧ checksum [0, 0, 0xff] = 65535 - sum [0, 0, 0xff] ∧
        ∀ i, i % 2 = 0 → i + 2 ≤ [0, 0, (0xff : UInt8)].length → slice [0, 0, 0xff] i (i + 2) = [0, 0] →
          sum (splice [0, 0, 0xff] i (i + 2) (encode .big 2 (checksum [0, 0, 0xff]))) = 65535 :=
  checksum_eq_reference (by decide)

theorem fillChecksum_length (pseudo : Bytes) {trans : Bytes} {i : Nat} (h : i + 2 ≤ trans.length) :
    (fillChecksum pseudo trans i).length = trans.length := by
  have hzeros := zeros_length i
  have hzeroed : (splice trans i (i + 2) [0, 0]).length = trans.length := splice_length (by omega) h hzeros
  rw [fillChecksum, splice_length (by omega) (by omega) (word_length i _), hzeroed]

/-! ### Packets -/

/-- The length of an IPv4 header, in bytes. -/
def headerLength (ip : Bytes) : Nat := (ip.getD 0 0).toNat % 16 * 4

/-- The protocol of an IPv4 packet. -/
def protocol (ip : Bytes) : UInt8 := ip.getD 9 0

/-- A TCP segment or UDP datagram over IPv4, of which the full header was captured. -/
structure TransportPacket (ip : Bytes) : Prop where
  version : (ip.getD 0 0).toNat / 16 = 4
  ihl : 20 ≤ headerLength ip
  proto : protocol ip = 6 ∨ protocol ip = 17
  header : headerLength ip + (if protocol ip = 6 then 20 else 8) ≤ ip.length

theorem getElem?_of_lt {s : Bytes} {n : Nat} (h : n < s.length) : s[n]? = some (s.getD n 0) := by
  rw [List.getD_eq_getElem?_getD, List.getElem?_eq_getElem h, Option.getD_some]

theorem parseInner_of_type {f : Bytes} (hlen : 14 ≤ f.length) (htype : etherType f ≠ 0x8100) :
    parseInner f = some (etherType f, f.drop 14) := by
  rw [etherType] at htype ⊢
  rw [parseInner, parseEthernet, if_neg (by omega), Option.bind_eq_bind, Option.bind_some, if_neg htype]

theorem parseIp_of_version {ip : Bytes} (hversion : (ip.getD 0 0).toNat / 16 = 4) (hlen : 20 ≤ ip.length) :
    parseIp ip = some ⟨.ipv4, dottedQuad (slice ip 12 16), dottedQuad (slice ip 16 20), (protocol ip).toNat,
      ip.drop (headerLength ip)⟩ := by
  have hsrc : inetNtoa (slice ip 12 16) = some (dottedQuad (slice ip 12 16)) :=
    if_pos (by rw [slice_length]; omega)
  have hdst : inetNtoa (slice ip 16 20) = some (dottedQuad (slice ip 16 20)) :=
    if_pos (by rw [slice_length]; omega)
  have hfirst : ip[0]? = some (ip.getD 0 0) := getElem?_of_lt (by omega)
  have hproto : ip[9]? = some (protocol ip) := getElem?_of_lt (by omega)
  simp only [parseIp, hfirst, hversion, hsrc, hdst, hproto, Option.bind_eq_bind, Option.bind_some, if_true]
  rfl

theorem parseTransport_of_length {proto : UInt8} (hproto : proto = 6 ∨ proto = 17) {data : Bytes}
    (hlen : 4 ≤ data.length) :
    ∃ flags, parseTransport proto.toNat data =
      ⟨some (decode .big (slice data 0 2)), some (decode .big (slice data 2 4)), flags⟩ := by
  have hports : (proto.toNat = 6 ∨ proto.toNat = 17) ∧ 4 ≤ data.length := by
    refine ⟨?_, hlen⟩
    rcases hproto with hp | hp
    · exact .inl (by rw [hp]; rfl)
    · exact .inr (by rw [hp]; rfl)
  exact ⟨_, by rw [parseTransport, if_pos hports]⟩

section

variable {ip : Bytes} (h : TransportPacket ip)

include h

theorem TransportPacket.length_le : headerLength ip + 8 ≤ ip.length := by
  have hheader := h.header
  split_ifs at hheader <;> omega

theorem TransportPacket.parseIp_eq :
    parseIp ip = some ⟨.ipv4, dottedQuad (slice ip 12 16), dottedQuad (slice ip 16 20), (protocol ip).toNat,
      ip.drop (headerLength ip)⟩ := by
  have hihl := h.ihl
  have hheader := h.length_le
  exact parseIp_of_version h.version (by omega)

theorem TransportPacket.parseTransport_eq :
    ∃ flags, parseTransport (protocol ip).toNat (ip.drop (headerLength ip)) =
      ⟨some (decode .big (slice (ip.drop (headerLength ip)) 0 2)),
        some (decode .big (slice (ip.drop (headerLength ip)) 2 4)), flags⟩ := by
  have hheader := h.length_le
  exact parseTransport_of_length h.proto (by rw [List.length_drop]; omega)

end

/-! ### Addresses and ports -/

/-- The addresses and ports of a packet. -/
structure Tuple where
  src : Str
  dst : Str
  sport : Int
  dport : Int
  deriving DecidableEq, Repr

/-- What `parse_ip` and `parse_transport` find. -/
def parseTuple (payload : Bytes) : Option Tuple := do
  let ip ← parseIp payload
  let transport := parseTransport ip.proto ip.payload
  let sport ← transport.sport
  let dport ← transport.dport
  some ⟨ip.src, ip.dst, sport, dport⟩

/-- The tuple of a packet. -/
def tupleOf (ip : Bytes) : Tuple :=
  { src := dottedQuad (slice ip 12 16)
    dst := dottedQuad (slice ip 16 20)
    sport := decode .big (slice (ip.drop (headerLength ip)) 0 2)
    dport := decode .big (slice (ip.drop (headerLength ip)) 2 4) }

theorem TransportPacket.parseTuple_eq {ip : Bytes} (h : TransportPacket ip) : parseTuple ip = some (tupleOf ip) := by
  obtain ⟨flags, htransport⟩ := h.parseTransport_eq
  simp only [parseTuple, h.parseIp_eq, htransport, Option.bind_eq_bind, Option.bind_some]
  rfl

/-- The tuple required: the forced fields where they are given, the other way round for downlink. -/
def Replayer.required (r : Replayer) (direction : Direction) (t : Tuple) : Tuple :=
  match direction with
  | .uplink =>
    { src := (given r.forceIpSrc).getD t.src
      dst := (given r.forceIpDst).getD t.dst
      sport := (nonzero r.forceSport).getD t.sport
      dport := (nonzero r.forceDport).getD t.dport }
  | .downlink =>
    { src := (given r.forceIpDst).getD t.src
      dst := (given r.forceIpSrc).getD t.dst
      sport := (nonzero r.forceDport).getD t.sport
      dport := (nonzero r.forceSport).getD t.dport }

def portFits (port : Int) : Bool := 0 ≤ port && port < 65536

def Replayer.portsFit (r : Replayer) : Bool := r.forceSport.all portFits && r.forceDport.all portFits

theorem exists_address {read : Str → Option Bytes} {x : Option Str} (hx : ∀ a, x = some a → (read a).isSome = true)
    {own : Str} (hown : ∃ b, read own = some b) : ∃ bytes, read ((given x).getD own) = some bytes := by
  cases hgiven : given x with
  | none => exact hown
  | some a =>
    obtain ⟨hxa, -⟩ := Option.filter_eq_some_iff.mp hgiven
    exact Option.isSome_iff_exists.mp (hx a hxa)

theorem portFits_getD (x : Option Int) {n : Nat} (hn : n < 65536) :
    portFits ((nonzero x).getD n) = x.all portFits := by
  have hfits : portFits n = true := by simp only [portFits, Bool.and_eq_true, decide_eq_true_eq]; omega
  cases hnonzero : nonzero x with
  | none =>
    rw [Option.getD_none, hfits]
    cases x with
    | none => rfl
    | some port =>
      have hzero : port = 0 := by simpa [nonzero] using hnonzero
      rw [hzero]
      rfl
  | some port =>
    obtain ⟨rfl, -⟩ := Option.filter_eq_some_iff.mp hnonzero
    rfl

theorem port_lt (s : Bytes) (i : Nat) : decode .big (slice s i (i + 2)) < 65536 := by
  have hle : (slice s i (i + 2)).length ≤ 2 := by rw [slice_length]; omega
  exact Nat.lt_of_lt_of_le (decode_lt _ _) (Nat.pow_le_pow_right (by decide) hle)

/-- `flow_info` has targets: two IPv4 addresses, which denote `src` and `dst`, and two ports. -/
structure FlowInfo.Aims (flow : FlowInfo) (src dst : Bytes) (sport dport : Int) : Prop where
  src : ∃ a, flow.modifiedIpSrc = some a ∧ inetAton a = some src
  dst : ∃ a, flow.modifiedIpDst = some a ∧ inetAton a = some dst
  sport : flow.modifiedSport = some sport
  dport : flow.modifiedDport = some dport

section

variable (r : Replayer) (direction : Direction)

theorem targets_required (flow : FlowInfo) (version : IpVersion) (src dst : Str) (proto : Nat) (payload : Bytes)
    (sport dport : Int) :
    (r.targets direction (some ⟨version, src, dst, proto, payload⟩) flow).modifiedIpSrc =
        some (r.required direction ⟨src, dst, sport, dport⟩).src ∧
      (r.targets direction (some ⟨version, src, dst, proto, payload⟩) flow).modifiedIpDst =
        some (r.required direction ⟨src, dst, sport, dport⟩).dst := by
  cases direction with
  | uplink => exact ⟨by simp [Replayer.targets, Replayer.required], by simp [Replayer.targets, Replayer.required]⟩
  | downlink => exact ⟨by simp [Replayer.targets, Replayer.required], by simp [Replayer.targets, Replayer.required]⟩

theorem targets_ports (flow : FlowInfo) (version : IpVersion) (src dst : Str) {proto : Nat} {payload : Bytes}
    {sport dport flags : Nat} (hparsed : parseTransport proto payload = ⟨some sport, some dport, flags⟩) :
    (r.targets direction (some ⟨version, src, dst, proto, payload⟩) flow).modifiedSport =
        some (r.required direction ⟨src, dst, sport, dport⟩).sport ∧
      (r.targets direction (some ⟨version, src, dst, proto, payload⟩) flow).modifiedDport =
        some (r.required direction ⟨src, dst, sport, dport⟩).dport := by
  cases direction with
  | uplink =>
    exact ⟨by simp [Replayer.targets, Replayer.required, hparsed], by simp [Replayer.targets, Replayer.required, hparsed]⟩
  | downlink =>
    exact ⟨by simp [Replayer.targets, Replayer.required, hparsed], by simp [Replayer.targets, Replayer.required, hparsed]⟩

theorem exists_required {read : Str → Option Bytes} (hsrc : ∀ a, r.forceIpSrc = some a → (read a).isSome = true)
    (hdst : ∀ a, r.forceIpDst = some a → (read a).isSome = true) {t : Tuple} (hown : ∃ b, read t.src = some b)
    (hown' : ∃ b, read t.dst = some b) :
    ∃ src dst, read (r.required direction t).src = some src ∧ read (r.required direction t).dst = some dst := by
  cases direction with
  | uplink =>
    obtain ⟨src, hsrc'⟩ := exists_address hsrc hown
    obtain ⟨dst, hdst'⟩ := exists_address hdst hown'
    exact ⟨src, dst, hsrc', hdst'⟩
  | downlink =>
    obtain ⟨src, hsrc'⟩ := exists_address hdst hown
    obtain ⟨dst, hdst'⟩ := exists_address hsrc hown'
    exact ⟨src, dst, hsrc', hdst'⟩

theorem required_portsFit (src dst : Str) {sport dport : Nat} (hsport : sport < 65536) (hdport : dport < 65536) :
    (portFits (r.required direction ⟨src, dst, sport, dport⟩).sport &&
      portFits (r.required direction ⟨src, dst, sport, dport⟩).dport) = r.portsFit := by
  cases direction with
  | uplink => exact congrArg₂ and (portFits_getD _ hsport) (portFits_getD _ hdport)
  | downlink =>
    rw [Replayer.portsFit, Bool.and_comm (r.forceSport.all portFits)]
    exact congrArg₂ and (portFits_getD _ hsport) (portFits_getD _ hdport)

end

section

variable {ip : Bytes} (h : TransportPacket ip) (r : Replayer) (direction : Direction)

include h

theorem TransportPacket.targets_aim (flow : FlowInfo) {src dst : Bytes}
    (hsrc : inetAton (r.required direction (tupleOf ip)).src = some src)
    (hdst : inetAton (r.required direction (tupleOf ip)).dst = some dst) :
    (r.targets direction (parseIp ip) flow).Aims src dst (r.required direction (tupleOf ip)).sport
      (r.required direction (tupleOf ip)).dport := by
  obtain ⟨flags, htransport⟩ := h.parseTransport_eq
  rw [h.parseIp_eq]
  obtain ⟨hsport, hdport⟩ := targets_ports r direction flow _ _ _ htransport
  obtain ⟨hsrc', hdst'⟩ := targets_required r direction flow _ _ _ _ _ _ _
  exact ⟨⟨_, hsrc', hsrc⟩, ⟨_, hdst', hdst⟩, hsport, hdport⟩

theorem TransportPacket.required_addresses (hsrc : ∀ a, r.forceIpSrc = some a → isIpv4Address a)
    (hdst : ∀ a, r.forceIpDst = some a → isIpv4Address a) :
    ∃ src dst, inetAton (r.required direction (tupleOf ip)).src = some src ∧
      inetAton (r.required direction (tupleOf ip)).dst = some dst := by
  have hihl := h.ihl
  have hheader := h.length_le
  have hsrc4 := inetAton_dottedQuad (b := slice ip 12 16) (by rw [slice_length]; omega)
  have hdst4 := inetAton_dottedQuad (b := slice ip 16 20) (by rw [slice_length]; omega)
  exact exists_required r direction hsrc hdst ⟨_, hsrc4⟩ ⟨_, hdst4⟩

omit h in
theorem tupleOf_portsFit (ip : Bytes) :
    (portFits (r.required direction (tupleOf ip)).sport && portFits (r.required direction (tupleOf ip)).dport) =
      r.portsFit :=
  required_portsFit r direction _ _ (port_lt _ 0) (port_lt _ 2)

end

/-! ### Rewriting -/

section

variable {flow : FlowInfo} {src dst : Bytes} {sport dport : Int}

theorem given_of_aton {a : Str} {b : Bytes} (h : inetAton a = some b) : given (some a) = some a := by
  cases a with
  | nil => cases h
  | cons c s => rfl

theorem FlowInfo.Aims.target (h : flow.Aims src dst sport dport) : flow.target isIpv4Address = true := by
  obtain ⟨a, ha, haddr⟩ := h.src
  rw [FlowInfo.target, ha, given_of_aton haddr, Option.any_some, isIpv4Address, haddr]
  rfl

theorem setAddress_of_aton {target : Option Str} {b : Bytes} (h : ∃ a, target = some a ∧ inetAton a = some b)
    (i j : Nat) (header : Bytes) : setAddress inetAton target i j header = some (splice header i j b) := by
  obtain ⟨a, rfl, haddr⟩ := h
  simp only [setAddress, given_of_aton haddr, haddr, Option.map_some]

theorem packInt_port (port : Int) :
    packInt .big 2 port = if portFits port then some (encode .big 2 port.toNat) else none := by
  rw [packInt, pack, portFits]
  simp only [Bool.and_eq_true, decide_eq_true_eq]
  split_ifs <;> first | rfl | omega

theorem splice_ports {header first : Bytes} (hheader : header.length = 4) (hfirst : first.length = 2) (second : Bytes) :
    splice (splice header 0 2 first) 2 4 second = first ++ second := by
  have hsplice : splice header 0 2 first = first ++ header.drop 2 := rfl
  rw [hsplice, splice, List.take_left' hfirst, List.drop_eq_nil_of_le, List.append_nil]
  rw [List.length_append, List.length_drop, hheader, hfirst]

theorem setPorts_eq (hsport : flow.modifiedSport = some sport) (hdport : flow.modifiedDport = some dport)
    {payload : Bytes} (hlen : 4 ≤ payload.length) :
    flow.setPorts payload =
      if portFits sport && portFits dport then
        some (encode .big 2 sport.toNat ++ encode .big 2 dport.toNat ++ payload.drop 4)
      else none := by
  have hhead : (payload.take 4).length = 4 := by rw [List.length_take]; omega
  simp only [FlowInfo.setPorts, setPort, hsport, hdport, packInt_port]
  cases portFits sport with
  | false => rfl
  | true =>
    cases portFits dport with
    | false => rfl
    | true =>
      simp only [if_true, Option.map_some, Option.bind_eq_bind, Option.bind_some, Bool.and_self,
        splice_ports hhead (encode_length ..)]

end

/-- The header with these addresses and its checksum. -/
def newHeader (header src dst : Bytes) : Bytes := fillOwnChecksum (splice (splice header 12 16 src) 16 20 dst) 10

/-- The segment with these ports. -/
def newSegment (sport dport : Int) (payload : Bytes) : Bytes :=
  encode .big 2 sport.toNat ++ encode .big 2 dport.toNat ++ payload.drop 4

/-- Where the checksum of TCP or UDP is. -/
def checksumOffset (proto : UInt8) : Nat := if proto = 6 then 16 else 6

/-- What the branch `IPv4` puts behind the Ethernet header, with targets that fit. -/
def newPacket (ip src dst : Bytes) (sport dport : Int) : Bytes :=
  let header := newHeader (ip.take (headerLength ip)) src dst
  let trans := newSegment sport dport (ip.drop (headerLength ip))
  header ++ fillChecksum (slice header 12 20 ++ [0, protocol ip] ++ encode .big 2 trans.length) trans
    (checksumOffset (protocol ip))

theorem hasPorts_of_proto {proto : UInt8} (h : proto = 6 ∨ proto = 17) : hasPorts proto = true := by
  rcases h with rfl | rfl <;> rfl

theorem fillTransport_eq {proto : UInt8} (h : proto = 6 ∨ proto = 17) (pseudo trans : Bytes) :
    fillTransport proto pseudo trans = fillChecksum pseudo trans (checksumOffset proto) := by
  rcases h with rfl | rfl <;> rfl

theorem newSegment_length (sport dport : Int) {payload : Bytes} (h : 4 ≤ payload.length) :
    (newSegment sport dport payload).length = payload.length := by
  simp only [newSegment, List.length_append, encode_length, List.length_drop]
  omega

theorem newSegment_drop (sport dport : Int) (payload : Bytes) :
    (newSegment sport dport payload).drop 4 = payload.drop 4 :=
  List.drop_left' (by rw [List.length_append, encode_length, encode_length])

/-- **The branch `IPv4`** for a TCP segment or UDP datagram: the new packet, if the ports and the length fit. -/
theorem TransportPacket.rewritten_eq {ip : Bytes} (h : TransportPacket ip) {flow : FlowInfo} {src dst : Bytes}
    {sport dport : Int} (haims : flow.Aims src dst sport dport) :
    rewritten flow ip =
      if (portFits sport && portFits dport) = true ∧ ip.length - headerLength ip < 65536 then
        some (newPacket ip src dst sport dport)
      else none := by
  have hihl := h.ihl
  have hheader := h.length_le
  have hfirst : ip[0]? = some (ip.getD 0 0) := getElem?_of_lt (by omega)
  have hninth : (ip.take (headerLength ip))[9]? = some (protocol ip) := by
    rw [List.getElem?_take_of_lt (by omega)]
    exact getElem?_of_lt (by omega)
  have hports := hasPorts_of_proto h.proto
  have hrewritten : rewritten flow ip = rewriteIpv4 flow ip := by
    simp only [rewritten, hfirst, h.version, haims.target, Option.bind_eq_bind, Option.bind_some, and_self, if_true]
  have hfour : 4 ≤ (ip.drop (headerLength ip)).length := by rw [List.length_drop]; omega
  have hihl' : (ip.getD 0 0).toNat % 16 * 4 = headerLength ip := rfl
  have hfill := fillTransport_eq h.proto
  have hsegment : encode .big 2 sport.toNat ++ encode .big 2 dport.toNat ++ (ip.drop (headerLength ip)).drop 4 =
      newSegment sport dport (ip.drop (headerLength ip)) := rfl
  have hlen := newSegment_length sport dport hfour
  rw [List.length_drop] at hlen
  rw [hrewritten]
  simp only [rewriteIpv4, hfirst, hihl', hninth, setAddress_of_aton haims.src, setAddress_of_aton haims.dst, hports,
    setPorts_eq haims.sport haims.dport hfour, Option.bind_eq_bind, Option.bind_some, if_true, hfill, hsegment]
  cases portFits sport && portFits dport with
  | false => simp only [Bool.false_eq_true, if_false, false_and, Option.bind_none]
  | true =>
    have hpow : 256 ^ 2 = 65536 := rfl
    simp only [if_true, Option.bind_some, true_and, pack, hpow, hlen, newPacket]
    split_ifs <;> rfl

/-! ### The new header and the new segment -/

theorem fillOwnChecksum_of_even {header : Bytes} {i : Nat} (heven : header.length % 2 = 0)
    (hi : i + 2 ≤ header.length) :
    fillOwnChecksum header i =
      splice header i (i + 2) (encode .big 2 (checksum (splice header i (i + 2) [0, 0]))) := by
  have hzeros := zeros_length i
  have hzlen : (splice header i (i + 2) [0, 0]).length = header.length := splice_length (by omega) hi hzeros
  have hpadded : padded (splice header i (i + 2) [0, 0]) = splice header i (i + 2) [0, 0] :=
    if_neg (by omega)
  rw [fillOwnChecksum, hpadded, splice_splice (by omega) hi hzeros]

theorem fillChecksum_eq (pseudo : Bytes) {trans : Bytes} {i : Nat} (hi : i + 2 ≤ trans.length) :
    fillChecksum pseudo trans i =
      splice trans i (i + 2) (encode .big 2 (checksum (pseudo ++ splice trans i (i + 2) [0, 0]))) := by
  rw [fillChecksum, splice_splice (by omega) hi (zeros_length i)]

theorem sum_fillOwnChecksum {header : Bytes} {i : Nat} (heven : header.length % 2 = 0) (hi : i + 2 ≤ header.length)
    (hword : i % 2 = 0) (hshort : header.length ≤ 131072) : sum (fillOwnChecksum header i) = 65535 := by
  have hzlen : (splice header i (i + 2) [0, 0]).length = header.length :=
    splice_length (by omega) hi (zeros_length i)
  rw [fillOwnChecksum_of_even heven hi]
  rw [← splice_splice (by omega) hi (zeros_length i)]
  exact sum_stored (by omega) hword (by omega) (slice_splice (by omega) hi (zeros_length i))

section

variable {header src dst : Bytes} (heven : header.length % 2 = 0) (hlen : 20 ≤ header.length) (hsrc : src.length = 4)
  (hdst : dst.length = 4)

include heven hlen hsrc hdst

theorem newHeader_lengths : (splice header 12 16 src).length = header.length ∧
    (splice (splice header 12 16 src) 16 20 dst).length = header.length := by
  have hone : (splice header 12 16 src).length = header.length := splice_length (by decide) (by omega) hsrc
  exact ⟨hone, by rw [splice_length (by decide) (by omega) hdst, hone]⟩

theorem exists_newHeader : ∃ c, newHeader header src dst =
    splice (splice (splice header 12 16 src) 16 20 dst) 10 12 (encode .big 2 c) := by
  obtain ⟨-, htwo⟩ := newHeader_lengths heven hlen hsrc hdst
  exact ⟨_, fillOwnChecksum_of_even (by omega) (by omega)⟩

theorem newHeader_length : (newHeader header src dst).length = header.length := by
  obtain ⟨-, htwo⟩ := newHeader_lengths heven hlen hsrc hdst
  obtain ⟨c, hc⟩ := exists_newHeader heven hlen hsrc hdst
  rw [hc, splice_length (by decide) (by omega) (encode_length ..), htwo]

theorem newHeader_take : (newHeader header src dst).take 10 = header.take 10 := by
  obtain ⟨hone, htwo⟩ := newHeader_lengths heven hlen hsrc hdst
  obtain ⟨c, hc⟩ := exists_newHeader heven hlen hsrc hdst
  rw [hc, splice_take_of_le (by decide) (by omega), splice_take_of_le (by decide) (by omega),
    splice_take_of_le (by decide) (by omega)]

theorem newHeader_addresses :
    slice (newHeader header src dst) 12 16 = src ∧ slice (newHeader header src dst) 16 20 = dst := by
  obtain ⟨hone, htwo⟩ := newHeader_lengths heven hlen hsrc hdst
  obtain ⟨c, hc⟩ := exists_newHeader heven hlen hsrc hdst
  have hword : (encode .big 2 c).length = 12 - 10 := encode_length ..
  rw [hc]
  constructor
  · rw [slice_splice_of_ge (by decide) (by omega) hword (by decide), slice_splice_of_le (by decide) (by omega),
      slice_splice (by decide) (by omega) hsrc]
  · rw [slice_splice_of_ge (by decide) (by omega) hword (by decide), slice_splice (by decide) (by omega) hdst]

theorem newHeader_verifies (hshort : header.length ≤ 131072) : sum (newHeader header src dst) = 65535 := by
  obtain ⟨-, htwo⟩ := newHeader_lengths heven hlen hsrc hdst
  exact sum_fillOwnChecksum (by omega) (by omega) (by decide) (by omega)

theorem newHeader_getElem? {k : Nat} (hk : k < 10 ∨ 20 ≤ k) : (newHeader header src dst)[k]? = header[k]? := by
  obtain ⟨hone, htwo⟩ := newHeader_lengths heven hlen hsrc hdst
  obtain ⟨c, hc⟩ := exists_newHeader heven hlen hsrc hdst
  rw [hc, getElem?_splice (by decide) (by omega) (encode_length ..) (by omega),
    getElem?_splice (by decide) (by omega) hdst (by omega), getElem?_splice (by decide) (by omega) hsrc (by omega)]

end

theorem checksumOffset_le {ip : Bytes} (h : TransportPacket ip) :
    6 ≤ checksumOffset (protocol ip) ∧ checksumOffset (protocol ip) + 2 ≤ ip.length - headerLength ip := by
  have hheader := h.header
  rw [checksumOffset]
  split_ifs at hheader ⊢ <;> omega

/-- The segment behind the new header: as long as before, with the new ports, and the other bytes of the old one but for
the checksum. -/
theorem exists_segment {ip : Bytes} (h : TransportPacket ip) (src dst : Bytes) (sport dport : Int) :
    ∃ trans : Bytes, newPacket ip src dst sport dport = newHeader (ip.take (headerLength ip)) src dst ++ trans ∧
      trans.length = ip.length - headerLength ip ∧ slice trans 0 2 = encode .big 2 sport.toNat ∧
      slice trans 2 4 = encode .big 2 dport.toNat ∧
      ∀ k, 4 ≤ k → (k < checksumOffset (protocol ip) ∨ checksumOffset (protocol ip) + 2 ≤ k) →
        trans[k]? = ip[headerLength ip + k]? := by
  have hlong := h.length_le
  obtain ⟨hsix, hoffset⟩ := checksumOffset_le h
  have hfour : 4 ≤ (ip.drop (headerLength ip)).length := by rw [List.length_drop]; omega
  have hlen := newSegment_length sport dport hfour
  rw [List.length_drop] at hlen
  have hdrop := newSegment_drop sport dport (ip.drop (headerLength ip))
  have hports : ∀ i, i + 2 ≤ 4 → slice (newSegment sport dport (ip.drop (headerLength ip))) i (i + 2) =
      slice (encode .big 2 sport.toNat ++ encode .big 2 dport.toNat) i (i + 2) := fun i hi =>
    slice_append_left (by rw [List.length_append, encode_length, encode_length]; omega)
  have hnew : newPacket ip src dst sport dport = newHeader (ip.take (headerLength ip)) src dst ++
      fillChecksum (slice (newHeader (ip.take (headerLength ip)) src dst) 12 20 ++ [0, protocol ip] ++
        encode .big 2 (newSegment sport dport (ip.drop (headerLength ip))).length)
        (newSegment sport dport (ip.drop (headerLength ip))) (checksumOffset (protocol ip)) := rfl
  rw [fillChecksum_eq _ (by omega)] at hnew
  generalize checksum _ = c at hnew
  have hword : (encode .big 2 c).length = checksumOffset (protocol ip) + 2 - checksumOffset (protocol ip) :=
    word_length _ c
  refine ⟨_, hnew, ?_, ?_, ?_, ?_⟩
  · rw [splice_length (by omega) (by omega) hword, hlen]
  · rw [slice_splice_of_le (by omega) (by omega), hports 0 (by decide), slice_append_left (by rw [encode_length]),
      slice_all (by rw [encode_length])]
  · rw [slice_splice_of_le (by omega) (by omega), hports 2 (by decide), slice_append_right (by rw [encode_length]),
      encode_length, slice_all (by rw [encode_length])]
  · intro k hk hne
    have hk' : 4 + (k - 4) = k := by omega
    have hget := congrArg (fun t => t[k - 4]?) hdrop
    simp only [List.getElem?_drop, hk'] at hget
    rw [getElem?_splice (by omega) (by omega) hword hne, hget]

/-! ### The frame returned -/

theorem buildModifiedPacket_eq (ethBytes : Bytes) (flow : FlowInfo) :
    buildModifiedPacket ethBytes flow =
      ((rewritten flow (ethBytes.drop 14)).map fun payload => ethBytes.take 14 ++ payload).getD ethBytes := by
  rw [buildModifiedPacket]
  cases rewritten flow (ethBytes.drop 14) with
  | none => rfl
  | some payload => rfl

theorem modifyPacket_of_forced (r : Replayer) (hforced : r.noTupleModification = false) {f : Bytes}
    (heth : 14 ≤ f.length) (htype : etherType f = 0x0800 ∨ etherType f = 0x86DD) (flow : FlowInfo)
    (direction : Direction) :
    (r.modifyPacket f (some flow) direction).1 =
      buildModifiedPacket f (r.targets direction (parseIp (f.drop 14)) flow) := by
  have hinner := parseInner_of_type heth (by omega)
  rcases htype with htype | htype
  · simp [Replayer.modifyPacket, hforced, hinner, htype]
  · simp [Replayer.modifyPacket, hforced, hinner, htype]

/-- `modify_packet` for a TCP segment or UDP datagram: the new packet, or the frame as it came if the ports or the
length do not fit. -/
theorem modifyPacket_eq (r : Replayer) (hforced : r.noTupleModification = false) {f : Bytes} (heth : 14 ≤ f.length)
    (htype : etherType f = 0x0800) (h : TransportPacket (f.drop 14)) (flow : FlowInfo) (direction : Direction)
    {src dst : Bytes} (hsrc : inetAton (r.required direction (tupleOf (f.drop 14))).src = some src)
    (hdst : inetAton (r.required direction (tupleOf (f.drop 14))).dst = some dst) :
    (r.modifyPacket f (some flow) direction).1 =
      if r.portsFit = true ∧ (f.drop 14).length - headerLength (f.drop 14) < 65536 then
        f.take 14 ++ newPacket (f.drop 14) src dst (r.required direction (tupleOf (f.drop 14))).sport
          (r.required direction (tupleOf (f.drop 14))).dport
      else f := by
  have hmodified := modifyPacket_of_forced r hforced heth (.inl htype) flow direction
  have hrewritten := h.rewritten_eq (h.targets_aim r direction flow hsrc hdst)
  rw [tupleOf_portsFit] at hrewritten
  rw [hmodified, buildModifiedPacket_eq, hrewritten]
  split_ifs <;> rfl

/-! ### What is rewritten -/

/-- Two texts denote one address, and are the same where the second is a dotted quad. -/
def SameAddress (a b : Str) : Prop :=
  inetAton a = inetAton b ∧ ∀ bytes : Bytes, bytes.length = 4 → b = dottedQuad bytes → a = b

/-- The tuple `t` is the tuple `u`. -/
structure Tuple.Same (t u : Tuple) : Prop where
  src : SameAddress t.src u.src
  dst : SameAddress t.dst u.dst
  sport : t.sport = u.sport
  dport : t.dport = u.dport

/-- The checksum of the IPv4 header verifies. -/
def HeaderVerifies (ip : Bytes) : Prop := sum (ip.take (headerLength ip)) = 65535

/-- The bytes of a frame that are rewritten: the header checksum, the addresses, the ports and the checksum of TCP or
UDP. -/
def Rewritable (f : Bytes) (i : Nat) : Prop :=
  let trans := 14 + headerLength (f.drop 14)
  let chksum := trans + checksumOffset (protocol (f.drop 14))
  24 ≤ i ∧ i < 26 ∨ 26 ≤ i ∧ i < 34 ∨ trans ≤ i ∧ i < trans + 4 ∨ chksum ≤ i ∧ i < chksum + 2

/-- The frame `out` is `f` with the tuple `t`. -/
structure RewrittenTo (f out : Bytes) (t : Tuple) : Prop where
  length : out.length = f.length
  tuple : ∃ payload u, parseInner out = some (0x0800, payload) ∧ parseTuple payload = some u ∧ u.Same t
  header : HeaderVerifies (out.drop 14)
  unchanged : ∀ i, ¬Rewritable f i → out[i]? = f[i]?

/-- An untagged frame with a TCP segment or UDP datagram over IPv4, with the full header captured, of at most 65535
bytes. -/
structure CapturedFrame (f : Bytes) : Prop where
  ethernet : 14 ≤ f.length
  type : etherType f = 0x0800
  packet : TransportPacket (f.drop 14)
  short : f.length ≤ 65535

theorem sameAddress_dottedQuad {a : Str} {b : Bytes} (h : inetAton a = some b) : SameAddress (dottedQuad b) a := by
  have hb := inetAton_dottedQuad (inetAton_length h)
  refine ⟨hb.trans h.symm, ?_⟩
  rintro bytes hlen rfl
  rw [inetAton_dottedQuad hlen] at h
  rw [Option.some.inj h]

section

variable {ip : Bytes} (h : TransportPacket ip) {src dst : Bytes} (hsrc : src.length = 4) (hdst : dst.length = 4)
  (sport dport : Int)

include h hsrc hdst

theorem newPacket_length : (newPacket ip src dst sport dport).length = ip.length := by
  have hihl := h.ihl
  have hlong := h.length_le
  have htake : (ip.take (headerLength ip)).length = headerLength ip := by rw [List.length_take]; omega
  have heven : (ip.take (headerLength ip)).length % 2 = 0 := by rw [htake, headerLength]; omega
  obtain ⟨trans, hnew, hlen, -⟩ := exists_segment h src dst sport dport
  rw [hnew, List.length_append, newHeader_length heven (by omega) hsrc hdst, htake, hlen]
  omega

theorem newPacket_parts :
    slice (newPacket ip src dst sport dport) 12 16 = src ∧ slice (newPacket ip src dst sport dport) 16 20 = dst ∧
      slice ((newPacket ip src dst sport dport).drop (headerLength ip)) 0 2 = encode .big 2 sport.toNat ∧
      slice ((newPacket ip src dst sport dport).drop (headerLength ip)) 2 4 = encode .big 2 dport.toNat ∧
      sum ((newPacket ip src dst sport dport).take (headerLength ip)) = 65535 := by
  have hihl := h.ihl
  have hlong := h.length_le
  have hmax : headerLength ip ≤ 131072 := by rw [headerLength]; omega
  have htake : (ip.take (headerLength ip)).length = headerLength ip := by rw [List.length_take]; omega
  have heven : (ip.take (headerLength ip)).length % 2 = 0 := by rw [htake, headerLength]; omega
  have hlen := (newHeader_length heven (by omega) hsrc hdst).trans htake
  obtain ⟨hsrc', hdst'⟩ := newHeader_addresses heven (by omega) hsrc hdst
  have hsum := newHeader_verifies heven (by omega) hsrc hdst (by omega)
  obtain ⟨trans, hnew, -, hsport, hdport, -⟩ := exists_segment h src dst sport dport
  rw [hnew, List.drop_left' hlen, List.take_left' hlen, slice_append_left (by omega), slice_append_left (by omega)]
  exact ⟨hsrc', hdst', hsport, hdport, hsum⟩

theorem newPacket_getElem? {k : Nat} (hheader : k < 10 ∨ 20 ≤ k)
    (hports : k < headerLength ip ∨ headerLength ip + 4 ≤ k)
    (hchksum : k < headerLength ip + checksumOffset (protocol ip) ∨
      headerLength ip + checksumOffset (protocol ip) + 2 ≤ k) :
    (newPacket ip src dst sport dport)[k]? = ip[k]? := by
  have hihl := h.ihl
  have hlong := h.length_le
  have htake : (ip.take (headerLength ip)).length = headerLength ip := by rw [List.length_take]; omega
  have heven : (ip.take (headerLength ip)).length % 2 = 0 := by rw [htake, headerLength]; omega
  have hlen := (newHeader_length heven (by omega) hsrc hdst).trans htake
  obtain ⟨trans, hnew, -, -, -, htrans⟩ := exists_segment h src dst sport dport
  rw [hnew]
  rcases Nat.lt_or_ge k (headerLength ip) with hk | hk
  · rw [List.getElem?_append_left (by omega), newHeader_getElem? heven (by omega) hsrc hdst hheader,
      List.getElem?_take_of_lt hk]
  · have hsum : headerLength ip + (k - headerLength ip) = k := by omega
    rw [List.getElem?_append_right (by omega), hlen, htrans _ (by omega) (by omega), hsum]

/-- It is a packet of the same protocol with a header of the same length. -/
theorem newPacket_packet :
    headerLength (newPacket ip src dst sport dport) = headerLength ip ∧
      TransportPacket (newPacket ip src dst sport dport) := by
  have hihl := h.ihl
  have hlen := newPacket_length h hsrc hdst sport dport
  have hbyte (k : Nat) (hk : k < 10) : (newPacket ip src dst sport dport).getD k 0 = ip.getD k 0 := by
    rw [List.getD_eq_getElem?_getD, List.getD_eq_getElem?_getD,
      newPacket_getElem? h hsrc hdst sport dport (.inl hk) (.inl (by omega)) (.inl (by omega))]
  have hheader : headerLength (newPacket ip src dst sport dport) = headerLength ip := by
    rw [headerLength, headerLength, hbyte 0 (by decide)]
  have hproto : protocol (newPacket ip src dst sport dport) = protocol ip := hbyte 9 (by decide)
  refine ⟨hheader, ?_, ?_, ?_, ?_⟩
  · rw [hbyte 0 (by decide)]
    exact h.version
  · rw [hheader]
    exact hihl
  · rw [hproto]
    exact h.proto
  · rw [hheader, hproto, hlen]
    exact h.header

end

theorem etherType_take_append {f : Bytes} (heth : 14 ≤ f.length) (ip : Bytes) :
    etherType (f.take 14 ++ ip) = etherType f := by
  have hfour : (f.take 14).length = 14 := by rw [List.length_take, Nat.min_eq_left heth]
  rw [etherType, etherType, slice_append_left (by omega), slice, slice, ← List.drop_take, ← List.drop_take,
    List.take_take, Nat.min_self]

theorem parseInner_take_append {f : Bytes} (heth : 14 ≤ f.length) (htype : etherType f = 0x0800) (ip : Bytes) :
    parseInner (f.take 14 ++ ip) = some (0x0800, ip) := by
  have hfour : (f.take 14).length = 14 := by rw [List.length_take, Nat.min_eq_left heth]
  have hlen : 14 ≤ (f.take 14 ++ ip).length := by rw [List.length_append]; omega
  have hsame := etherType_take_append heth ip
  rw [parseInner_of_type hlen (by rw [hsame, htype]; decide), hsame, htype, List.drop_left' hfour]

theorem decode_port {port : Int} (h : portFits port = true) :
    (decode .big (encode .big 2 port.toNat) : Int) = port := by
  simp only [portFits, Bool.and_eq_true, decide_eq_true_eq] at h
  rw [decode_encode_of_lt (by omega), Int.toNat_of_nonneg h.1]

/-- **Rewritten packets.** For a replayer that forces something, with forced addresses of IPv4 and forced ports from 1
to 65535, `modify_packet` makes of a frame as `CapturedFrame` says the frame with the tuple required. -/
theorem modifyPacket_rewrittenTo (r : Replayer) (hforced : r.noTupleModification = false)
    (hsrc : ∀ a, r.forceIpSrc = some a → isIpv4Address a) (hdst : ∀ a, r.forceIpDst = some a → isIpv4Address a)
    (hsport : ∀ port, r.forceSport = some port → 1 ≤ port ∧ port ≤ 65535)
    (hdport : ∀ port, r.forceDport = some port → 1 ≤ port ∧ port ≤ 65535) {f : Bytes} (h : CapturedFrame f)
    (flow : FlowInfo) (direction : Direction) :
    ∃ old, parseInner f = some (0x0800, f.drop 14) ∧ parseTuple (f.drop 14) = some old ∧
      RewrittenTo f (r.modifyPacket f (some flow) direction).1 (r.required direction old) := by
  have hpacket := h.packet
  have hfits : r.portsFit = true := by
    have hall (x : Option Int) (hx : ∀ port, x = some port → 1 ≤ port ∧ port ≤ 65535) : x.all portFits = true := by
      cases x with
      | none => rfl
      | some port =>
        obtain ⟨hlow, hhigh⟩ := hx port rfl
        simp only [Option.all_some, portFits, Bool.and_eq_true, decide_eq_true_eq]
        omega
    rw [Replayer.portsFit, hall _ hsport, hall _ hdport]
    rfl
  have hshort : (f.drop 14).length - headerLength (f.drop 14) < 65536 := by
    have := h.short
    rw [List.length_drop]
    omega
  have hinner := parseInner_of_type h.ethernet (by rw [h.type]; decide)
  rw [h.type] at hinner
  refine ⟨_, hinner, hpacket.parseTuple_eq, ?_⟩
  obtain ⟨src, dst, hsrc', hdst'⟩ := hpacket.required_addresses r direction hsrc hdst
  rw [modifyPacket_eq r hforced h.ethernet h.type hpacket flow direction hsrc' hdst', if_pos ⟨hfits, hshort⟩]
  have hports := tupleOf_portsFit r direction (f.drop 14)
  rw [hfits] at hports
  generalize r.required direction (tupleOf (f.drop 14)) = t at *
  obtain ⟨hsfit, hdfit⟩ := Bool.and_eq_true_iff.mp hports
  have hfour : (f.take 14).length = 14 := by rw [List.length_take, Nat.min_eq_left h.ethernet]
  have hsrc4 := inetAton_length hsrc'
  have hdst4 := inetAton_length hdst'
  have hlen := newPacket_length hpacket hsrc4 hdst4 t.sport t.dport
  obtain ⟨hnewsrc, hnewdst, hnewsport, hnewdport, hsum⟩ := newPacket_parts hpacket hsrc4 hdst4 t.sport t.dport
  obtain ⟨hheader, hnew⟩ := newPacket_packet hpacket hsrc4 hdst4 t.sport t.dport
  have hbyte (k : Nat) := newPacket_getElem? (k := k) hpacket hsrc4 hdst4 t.sport t.dport
  generalize newPacket (f.drop 14) src dst t.sport t.dport = new at *
  refine ⟨?_, ⟨new, tupleOf new, parseInner_take_append h.ethernet h.type new, hnew.parseTuple_eq, ?_⟩, ?_, ?_⟩
  · rw [List.length_append, hlen, hfour, List.length_drop]
    have := h.ethernet
    omega
  · have hsrcText : (tupleOf new).src = dottedQuad src := congrArg dottedQuad hnewsrc
    have hdstText : (tupleOf new).dst = dottedQuad dst := congrArg dottedQuad hnewdst
    refine ⟨hsrcText ▸ sameAddress_dottedQuad hsrc', hdstText ▸ sameAddress_dottedQuad hdst', ?_, ?_⟩
    · rw [tupleOf, hheader, hnewsport, decode_port hsfit]
    · rw [tupleOf, hheader, hnewdport, decode_port hdfit]
  · rw [HeaderVerifies, List.drop_left' hfour, hheader, hsum]
  · intro i hi
    simp only [Rewritable, not_or] at hi
    rcases Nat.lt_or_ge i 14 with hlow | hhigh
    · rw [List.getElem?_append_left (by omega), List.getElem?_take_of_lt hlow]
    · have hindex : 14 + (i - 14) = i := by omega
      rw [List.getElem?_append_right (by omega), hfour, hbyte (i - 14) (by omega) (by omega) (by omega),
        List.getElem?_drop, hindex]

/-- `10.0.0.9` and port 8080 instead of the addressee, uplink. -/
def toOther : Replayer := ⟨none, some "10.0.0.9".toList, none, some 8080, none, none⟩

theorem modifyPacket_rewrittenTo_syn :
    ∃ old, parseInner synFrame = some (0x0800, synFrame.drop 14) ∧ parseTuple (synFrame.drop 14) = some old ∧
      RewrittenTo synFrame (toOther.modifyPacket synFrame (some newFlow) .uplink).1 (toOther.required .uplink old) :=
  modifyPacket_rewrittenTo toOther rfl nofun
    (by
      rintro a ⟨⟩
      decide +kernel)
    nofun
    (by
      rintro port ⟨⟩
      decide)
    ⟨by decide, by decide, ⟨by decide, by decide, by decide, by decide⟩, by decide⟩ newFlow .uplink

end SocketServer.Replay
