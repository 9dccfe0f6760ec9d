import SocketServer.Capture.Flows
import SocketServer.Capture.Sorting

/-!
# Flows of fragmented datagrams (`pcap_flow.py`)

`extract_pcap_flow_five_tuples` never looks at the fragment offset: it reads the first bytes of a later fragment as
ports and flags, and so puts that fragment into a flow.

* `flowEntries_insert_iff` : which packets may be put in between without a change of the entries;
* `extractPcapFlowFiveTuples_fragmented_iff` : when the fragments of a datagram have the entries of the datagram.
-/

namespace SocketServer.Capture

open Bytes Inet

/-! ### Packets put in between -/

/-- The flows of packets that come later, in the order of their first packets, without those there are. -/
def newFlows (earlier later : List FlowPacket) : List Canonical :=
  ((later.map canonical).filter (· ∉ earlier.map canonical)).eraseDups

/-- Packets of a flow that are read between others of it leave it its client: one was named before, or they name the
one that is named behind them, or else the first source; or they name none and are not the first, or a client is named
behind them, or they have the first source. -/
def KeepsClient (earlier read later : List FlowPacket) : Prop :=
  match earlier.findSome? signal, read.findSome? signal with
  | some _, _ => True
  | none, some client => (later.findSome? signal).or ((earlier ++ later).head?.map FlowPacket.src) = some client
  | none, none =>
    earlier ≠ [] ∨ (later.findSome? signal).isSome ∨ read.head?.map FlowPacket.src = later.head?.map FlowPacket.src

instance (earlier read later : List FlowPacket) : Decidable (KeepsClient earlier read later) := by
  unfold KeepsClient
  split <;> infer_instance

/-- Packets that are read between others make no entry and change none: their new flows are the next ones anyway, and
every flow keeps its client. -/
structure Unnoticed (earlier read later : List FlowPacket) : Prop where
  flows : newFlows earlier read <+: newFlows earlier later
  clients : ∀ p ∈ read,
    KeepsClient (earlier.filter (SameFlow p)) (read.filter (SameFlow p)) (later.filter (SameFlow p))

/-- The client of a flow, if there is one. -/
def clientAt (flow : List FlowPacket) : Option Endpoint :=
  (flow.findSome? signal).or (flow.head?.map FlowPacket.src)

/-- The entry of a flow, if it has a packet. -/
def entryAt (pcapName : Str) (flow : List FlowPacket) : Option FlowEntry :=
  flow.head?.map fun first => flowEntry pcapName first flow

/-- The packets are of the flow `key`, and there is one. -/
structure IsFlow (key : Canonical) (flow : List FlowPacket) : Prop where
  ne : flow ≠ []
  key : ∀ p ∈ flow, canonical p = key

theorem canonical_eq_swap_iff {p q : FlowPacket} : canonical q = canonical p ↔ SameFlow p q := by
  rw [eq_comm, canonical_eq_iff]

theorem IsFlow.entryAt {key : Canonical} {flow : List FlowPacket} (h : IsFlow key flow) (pcapName : Str) :
    ∃ first client, canonical first = key ∧ clientAt flow = some client ∧
      (client = first.src ∨ client = first.dst) ∧
      Capture.entryAt pcapName flow =
        some (entryBetween pcapName client (if client = first.src then first.dst else first.src) first.protoType) := by
  obtain ⟨first, rest, rfl⟩ := List.exists_cons_of_ne_nil h.ne
  have hsame : ∀ q ∈ first :: rest, SameFlow first q := by
    intro q hq
    exact canonical_eq_swap_iff.mp ((h.key q hq).trans (h.key first List.mem_cons_self).symm)
  refine ⟨first, clientOf first (first :: rest), h.key first List.mem_cons_self, ?_, clientOf_endpoint hsame, rfl⟩
  rw [clientAt, clientOf]
  cases (first :: rest).findSome? signal <;> rfl

theorem text_injective {s t : ProtoType} (h : s.text = t.text) : s = t := by
  cases s <;> cases t <;> first | rfl | cases h

theorem entryBetween_injective {pcapName : Str} {a b a' b' : Endpoint} {t t' : ProtoType}
    (h : entryBetween pcapName a b t = entryBetween pcapName a' b' t') : a = a' ∧ b = b' ∧ t = t' := by
  simp only [entryBetween, FlowEntry.mk.injEq, true_and] at h
  obtain ⟨hip, hport, hip', hport', htext⟩ := h
  obtain ⟨ip, port⟩ := a
  obtain ⟨ip', port'⟩ := b
  exact ⟨congrArg₂ Endpoint.mk hip hport, congrArg₂ Endpoint.mk hip' hport', text_injective htext⟩

theorem entryAt_inj {pcapName : Str} {key key' : Canonical} {flow flow' : List FlowPacket} (h : IsFlow key flow)
    (h' : IsFlow key' flow') (heq : entryAt pcapName flow = entryAt pcapName flow') :
    key = key' ∧ clientAt flow = clientAt flow' := by
  obtain ⟨first, client, hkey, hclient, hend, hentry⟩ := h.entryAt pcapName
  obtain ⟨first', client', hkey', hclient', hend', hentry'⟩ := h'.entryAt pcapName
  rw [hentry, hentry'] at heq
  obtain ⟨rfl, hother, htype⟩ := entryBetween_injective (Option.some.inj heq)
  refine ⟨?_, hclient.trans hclient'.symm⟩
  rw [← hkey, ← hkey', canonical_eq_iff]
  refine ⟨?_, htype⟩
  split_ifs at hother with hsrc hsrc' hsrc'
  · exact .inl ⟨hsrc.symm.trans hsrc', hother⟩
  · exact .inr ⟨hsrc.symm.trans (hend'.resolve_left hsrc'), hother⟩
  · exact .inr ⟨hother, (hend.resolve_left hsrc).symm.trans hsrc'⟩
  · exact .inl ⟨hother, (hend.resolve_left hsrc).symm.trans (hend'.resolve_left hsrc')⟩

theorem entryAt_congr {pcapName : Str} {key : Canonical} {flow flow' : List FlowPacket} (h : IsFlow key flow)
    (h' : IsFlow key flow') (heq : clientAt flow = clientAt flow') : entryAt pcapName flow = entryAt pcapName flow' := by
  obtain ⟨first, client, hkey, hclient, hend, hentry⟩ := h.entryAt pcapName
  obtain ⟨first', client', hkey', hclient', hend', hentry'⟩ := h'.entryAt pcapName
  obtain rfl : client = client' := Option.some.inj (hclient.symm.trans (heq.trans hclient'))
  obtain ⟨hends, htype⟩ := canonical_eq_iff.mp (hkey.trans hkey'.symm)
  rw [hentry, hentry', htype]
  congr 2
  obtain ⟨hsrc, hdst⟩ | ⟨hsrc, hdst⟩ := hends
  · rw [hsrc, hdst]
  · rw [hsrc, hdst] at hend ⊢
    split_ifs with hs hd hd
    · rw [← hs, ← hd]
    · rfl
    · rfl
    · rcases hend with heq | heq
      · exact absurd heq hs
      · exact absurd heq hd

/-- The keys of the flows, in the order of their first packets. -/
def flowKeys (ps : List FlowPacket) : List Canonical := (ps.map canonical).eraseDups

theorem isFlow_filter {ps : List FlowPacket} {key : Canonical} (h : key ∈ flowKeys ps) :
    IsFlow key (ps.filter fun p => canonical p = key) := by
  obtain ⟨p, hp, rfl⟩ := List.mem_map.mp (List.mem_eraseDups.mp h)
  refine ⟨List.ne_nil_of_mem (List.mem_filter.mpr ⟨hp, decide_eq_true rfl⟩), fun q hq => ?_⟩
  exact of_decide_eq_true (List.mem_filter.mp hq).2

theorem flowEntries_keys (pcapName : Str) (ps : List FlowPacket) :
    (flowEntries pcapName ps).map some =
      (flowKeys ps).map fun key => entryAt pcapName (ps.filter fun p => canonical p = key) := by
  rw [flowEntries_eq, flowKeys, ← Grouping.map_firsts, firsts_canonical, List.map_map, List.map_map]
  apply List.map_congr_left
  intro p hp
  obtain ⟨rest, hrest⟩ := filter_sameFlow hp
  simp only [Function.comp_apply, canonical_eq_swap_iff, entryAt, hrest, List.head?_cons, Option.map_some]

/-- **Equal entries** are those of the same flows, in the same order and with the same clients. -/
theorem flowEntries_eq_iff (pcapName : Str) (ps qs : List FlowPacket) :
    flowEntries pcapName ps = flowEntries pcapName qs ↔
      flowKeys ps = flowKeys qs ∧ ∀ key ∈ flowKeys qs,
        clientAt (ps.filter fun p => canonical p = key) = clientAt (qs.filter fun p => canonical p = key) := by
  have hsome : flowEntries pcapName ps = flowEntries pcapName qs ↔
      (flowEntries pcapName ps).map some = (flowEntries pcapName qs).map some :=
    (List.map_inj_right fun _ _ => Option.some.inj).symm
  rw [hsome, flowEntries_keys, flowEntries_keys]
  constructor
  · intro h
    have hkeys : flowKeys ps = flowKeys qs := by
      apply List.ext_getElem
      · simpa using congrArg List.length h
      · intro i hi hj
        have hentry := List.getElem_of_eq h (i := i) (by rw [List.length_map]; exact hi)
        rw [List.getElem_map, List.getElem_map] at hentry
        exact (entryAt_inj (isFlow_filter (List.getElem_mem hi)) (isFlow_filter (List.getElem_mem hj)) hentry).1
    rw [hkeys] at h
    refine ⟨hkeys, fun key hkey => ?_⟩
    have hentry := List.map_inj_left.mp h key hkey
    exact (entryAt_inj (isFlow_filter (hkeys ▸ hkey)) (isFlow_filter hkey) hentry).2
  · rintro ⟨hkeys, hclients⟩
    rw [hkeys]
    apply List.map_congr_left
    intro key hkey
    exact entryAt_congr (isFlow_filter (hkeys ▸ hkey)) (isFlow_filter hkey) (hclients key hkey)

theorem clientAt_insert_iff {earlier read later : List FlowPacket} (hread : read ≠ []) :
    clientAt (earlier ++ read ++ later) = clientAt (earlier ++ later) ↔ KeepsClient earlier read later := by
  rw [clientAt, clientAt, KeepsClient, List.findSome?_append, List.findSome?_append, List.findSome?_append]
  cases hearlier : earlier.findSome? signal with
  | some client => simp
  | none =>
    cases hfound : read.findSome? signal with
    | some client =>
      simp only [Option.none_or, Option.some_or]
      exact eq_comm
    | none =>
      simp only [Option.none_or]
      cases hlater : later.findSome? signal with
      | some client => simp
      | none =>
        obtain ⟨r, rs, rfl⟩ := List.exists_cons_of_ne_nil hread
        cases earlier with
        | nil => simp
        | cons e es => simp

/-- **Packets put in between** others change no entry if and only if they go unnoticed. -/
theorem flowEntries_insert_iff (pcapName : Str) (earlier read later : List FlowPacket) :
    flowEntries pcapName (earlier ++ read ++ later) = flowEntries pcapName (earlier ++ later) ↔
      Unnoticed earlier read later := by
  have hkeys : flowKeys (earlier ++ read ++ later) = flowKeys (earlier ++ later) ↔
      newFlows earlier read <+: newFlows earlier later := by
    rw [flowKeys, flowKeys, List.map_append, List.map_append, List.map_append, Grouping.eraseDups_insert_iff]
    rfl
  rw [flowEntries_eq_iff, hkeys]
  constructor
  · rintro ⟨hflows, hclients⟩
    refine ⟨hflows, fun p hp => ?_⟩
    have hmem : canonical p ∈ flowKeys (earlier ++ later) := by
      rw [← hkeys.mpr hflows]
      exact List.mem_eraseDups.mpr (List.mem_map_of_mem (List.mem_append_left _ (List.mem_append_right _ hp)))
    have hclient := hclients _ hmem
    simp only [canonical_eq_swap_iff, List.filter_append] at hclient
    refine (clientAt_insert_iff (List.ne_nil_of_mem (List.mem_filter.mpr ⟨hp, ?_⟩))).mp hclient
    exact decide_eq_true (canonical_eq_iff.mp rfl)
  · rintro ⟨hflows, hclients⟩
    refine ⟨hflows, fun key _ => ?_⟩
    by_cases hread : ∃ p ∈ read, canonical p = key
    · obtain ⟨p, hp, rfl⟩ := hread
      simp only [canonical_eq_swap_iff, List.filter_append]
      refine (clientAt_insert_iff (List.ne_nil_of_mem (List.mem_filter.mpr ⟨hp, ?_⟩))).mpr (hclients p hp)
      exact decide_eq_true (canonical_eq_iff.mp rfl)
    · have hnone : (read.filter fun p => canonical p = key) = [] := by
        apply List.filter_eq_nil_iff.mpr
        intro p hp heq
        exact hread ⟨p, hp, of_decide_eq_true heq⟩
      rw [List.filter_append, List.filter_append, List.filter_append, hnone, List.append_nil]

/-! ### Records of a file -/

/-- The packets in these data. -/
def packetsOf (datas : List Bytes) : List FlowPacket := datas.filterMap fun pktData => (parseFlowPacket pktData).join

/-- The data of the records that the loop reads from here. -/
def recordsFrom (host : Endian) (f : Bytes) : List Bytes := (readLoop (completeRecord host) f).1.map Record.data

theorem packetsOf_append (datas datas' : List Bytes) : packetsOf (datas ++ datas') = packetsOf datas ++ packetsOf datas' :=
  List.filterMap_append

theorem classified_append {host : Endian} {header : Bytes} (hheader : header.length = 24) {rs : List RawRecord}
    (hrs : ∀ r ∈ rs, r.Fits) (tail : Bytes) :
    classified host (header ++ (rs.flatMap (RawRecord.bytes host) ++ tail)) =
      packetsOf (rs.map RawRecord.data) ++ packetsOf (recordsFrom host tail) := by
  have hread := readLoop_flatMap_append (consuming_completeRecord host)
    (fun r hr => completeRecord_raw host (hrs r hr)) tail
  have hdrop : (header ++ (rs.flatMap (RawRecord.bytes host) ++ tail)).drop 24 =
      rs.flatMap (RawRecord.bytes host) ++ tail := List.drop_left' hheader
  rw [classified, flowRecords, hdrop, hread, List.map_append, List.map_map, ← packetsOf_append]
  rfl

/-! ### Fragments -/

/-- An IPv4 packet in a record: the bytes of the link layer, the header, and what is behind it. -/
structure Ipv4Frame where
  link : Bytes
  header : Bytes
  data : Bytes
  deriving DecidableEq, Repr

namespace Ipv4Frame

def bytes (f : Ipv4Frame) : Bytes := f.link ++ (f.header ++ f.data)

def proto (f : Ipv4Frame) : Nat := (f.header.getD 9 0).toNat

def src (f : Ipv4Frame) : Bytes := slice f.header 12 16

def dst (f : Ipv4Frame) : Bytes := slice f.header 16 20

/-- The fragment offset, in units of eight bytes. -/
def offset (f : Ipv4Frame) : Nat := decode .big (slice f.header 6 8) % 0x2000

/-- An Ethernet header, with a VLAN tag or without, and an IPv4 header of a TCP segment or a UDP datagram. -/
structure Valid (f : Ipv4Frame) : Prop where
  link : f.link.length = 14 ∧ decode .big (slice f.link 12 14) = 0x0800 ∨
    f.link.length = 18 ∧ decode .big (slice f.link 12 14) = 0x8100 ∧ decode .big (slice f.link 16 18) = 0x0800
  header : 20 ≤ f.header.length
  ihl : (f.header.getD 0 0).toNat % 16 * 4 = f.header.length
  proto : f.proto = 6 ∨ f.proto = 17

instance (f : Ipv4Frame) : Decidable f.Valid :=
  decidable_of_iff (_ ∧ _ ∧ _ ∧ _) ⟨fun ⟨h₁, h₂, h₃, h₄⟩ => ⟨h₁, h₂, h₃, h₄⟩, fun ⟨h₁, h₂, h₃, h₄⟩ => ⟨h₁, h₂, h₃, h₄⟩⟩

end Ipv4Frame

/-- The fragments of a datagram, in order: the first has 14 bytes of it at least, and the others have what is left. -/
structure FragmentsOf (d first : Ipv4Frame) (later : List Ipv4Frame) : Prop where
  datagram : d.Valid
  fragments : ∀ f ∈ first :: later, f.Valid ∧ f.proto = d.proto ∧ f.src = d.src ∧ f.dst = d.dst
  length : 14 ≤ first.data.length
  offset : ∀ f ∈ later, 0 < f.offset
  data : d.data = first.data ++ later.flatMap Ipv4Frame.data

/-- An HTTP signature at the beginning of the payload of the datagram is in the first fragment. -/
def SignatureFits (d first : Ipv4Frame) : Prop :=
  d.proto = 6 → ∀ signature ∈ httpRequestMethods ++ [httpResponse],
    signature <+: d.data.drop ((d.data.getD 12 0).toNat / 16 * 4) →
      signature <+: first.data.drop ((d.data.getD 12 0).toNat / 16 * 4)

theorem parseFlowPacket_bytes {f : Ipv4Frame} (h : f.Valid) :
    parseFlowPacket f.bytes = parseNetwork 0x0800 (f.header ++ f.data) := by
  rw [parseFlowPacket, Ipv4Frame.bytes]
  rcases h.link with ⟨hlen, htype⟩ | ⟨hlen, htag, htype⟩
  · have hfield : slice (f.link ++ (f.header ++ f.data)) 12 14 = slice f.link 12 14 := slice_append_left (by omega)
    rw [if_neg (by rw [List.length_append]; omega), hfield, htype, List.drop_left' hlen]
    rfl
  · have hfield : slice (f.link ++ (f.header ++ f.data)) 12 14 = slice f.link 12 14 := slice_append_left (by omega)
    have hdrop : (f.link ++ (f.header ++ f.data)).drop 14 = f.link.drop 14 ++ (f.header ++ f.data) := by
      rw [List.drop_append_of_le_length (by omega)]
    have hinner : slice (f.link.drop 14 ++ (f.header ++ f.data)) 2 4 = slice f.link 16 18 := by
      rw [slice_append_left (by rw [List.length_drop]; omega), slice, slice, List.drop_drop]
    have hrest : (f.link.drop 14 ++ (f.header ++ f.data)).drop 4 = f.header ++ f.data :=
      List.drop_left' (by rw [List.length_drop]; omega)
    have hlong : ¬(f.link.drop 14 ++ (f.header ++ f.data)).length < 4 := by
      rw [List.length_append, List.length_drop]
      omega
    rw [if_neg (by rw [List.length_append]; omega), hfield, htag, hdrop]
    dsimp only
    rw [if_pos rfl, if_neg hlong, hinner, htype, hrest]

theorem parseFlowPacket_frame {f : Ipv4Frame} (h : f.Valid) :
    ∃ src dst, inetNtoa f.src = some src ∧ inetNtoa f.dst = some dst ∧
      parseFlowPacket f.bytes = some (classify f.proto src dst f.data) := by
  have hheader := h.header
  have hsrc : slice (f.header ++ f.data) 12 16 = f.src := slice_append_left (by omega)
  have hdst : slice (f.header ++ f.data) 16 20 = f.dst := slice_append_left (by omega)
  have hfield (i : Nat) (hi : i < 20) : (f.header ++ f.data).getD i 0 = f.header.getD i 0 := by
    rw [List.getD_eq_getElem?_getD, List.getD_eq_getElem?_getD, List.getElem?_append_left (by omega)]
  obtain ⟨src, hntoa⟩ := inetNtoa_slice (s := f.header) (i := 12) (by omega)
  obtain ⟨dst, hntoa'⟩ := inetNtoa_slice (s := f.header) (i := 16) (by omega)
  refine ⟨src, dst, hntoa, hntoa', ?_⟩
  have hlong : ¬(f.header ++ f.data).length < 20 := by
    rw [List.length_append]
    omega
  rw [parseFlowPacket_bytes h, parseNetwork, if_pos rfl, if_neg hlong, hsrc, hdst, hfield 0 (by decide),
    hfield 9 (by decide), h.ihl]
  dsimp only
  have hsrc' : inetNtoa f.src = some src := hntoa
  have hdst' : inetNtoa f.dst = some dst := hntoa'
  rw [hsrc', hdst', List.drop_left]
  rfl

theorem protoType_isSome {proto : Nat} (h : proto = 6 ∨ proto = 17) :
    ∃ type, protoType proto = some type ∧ type ≠ .icmp := by
  rcases h with rfl | rfl
  · exact ⟨.tcp, rfl, nofun⟩
  · exact ⟨.udp, rfl, nofun⟩

theorem classify_of_length {proto : Nat} (hproto : proto = 6 ∨ proto = 17) (src dst : Str) {trans : Bytes}
    (h : 14 ≤ trans.length) :
    ∃ type, classify proto src dst trans =
      some ⟨⟨src, natText (decode .big (slice trans 0 2))⟩, ⟨dst, natText (decode .big (slice trans 2 4))⟩, type, proto,
        if proto = 6 then (trans.getD 13 0).toNat else 0, trans⟩ ∧ protoType proto = some type := by
  obtain ⟨type, htype, hicmp⟩ := protoType_isSome hproto
  refine ⟨type, ?_, htype⟩
  rw [classify, htype]
  simp only [Option.bind_eq_bind, Option.bind_some, portsAndFlags, if_neg hicmp]
  rw [if_neg (by omega)]
  rfl

theorem getD_append_left {s : Bytes} {i : Nat} (h : i < s.length) (t : Bytes) : (s ++ t).getD i 0 = s.getD i 0 := by
  rw [List.getD_eq_getElem?_getD, List.getD_eq_getElem?_getD, List.getElem?_append_left h]

/-- A signature that fits is found in the first fragment when it is found in the datagram. -/
theorem isPrefixOf_append {signature payload rest : Bytes} (h : signature <+: payload ++ rest → signature <+: payload) :
    signature.isPrefixOf payload = signature.isPrefixOf (payload ++ rest) := by
  rw [Bool.eq_iff_iff, List.isPrefixOf_iff_prefix, List.isPrefixOf_iff_prefix]
  exact ⟨fun hprefix => hprefix.trans (List.prefix_append _ _), h⟩

section

variable {d first : Ipv4Frame} {later : List Ipv4Frame}

/-- **The first fragment** is read like the datagram, but for its data. -/
theorem FragmentsOf.first_eq (h : FragmentsOf d first later) :
    ∃ p : FlowPacket, (parseFlowPacket d.bytes).join = some p ∧
      (parseFlowPacket first.bytes).join = some { p with trans := first.data } ∧ p.trans = d.data ∧ p.proto = d.proto := by
  obtain ⟨hvalid, hproto, hsrc, hdst⟩ := h.fragments first List.mem_cons_self
  obtain ⟨src, dst, hntoa, hntoa', hparse⟩ := parseFlowPacket_frame h.datagram
  obtain ⟨src', dst', hfirst, hfirst', hparse'⟩ := parseFlowPacket_frame hvalid
  obtain rfl : src' = src := Option.some.inj (hfirst.symm.trans ((congrArg inetNtoa hsrc).trans hntoa))
  obtain rfl : dst' = dst := Option.some.inj (hfirst'.symm.trans ((congrArg inetNtoa hdst).trans hntoa'))
  have hlong := h.length
  have hdata := h.data
  have hlong' : 14 ≤ d.data.length := by
    rw [hdata, List.length_append]
    omega
  obtain ⟨type, hclassify, htype⟩ := classify_of_length h.datagram.proto src' dst' hlong'
  obtain ⟨type', hclassify', htype'⟩ := classify_of_length h.datagram.proto src' dst' hlong
  obtain rfl : type' = type := Option.some.inj (htype'.symm.trans htype)
  have hsport : slice d.data 0 2 = slice first.data 0 2 := by rw [hdata, slice_append_left (by omega)]
  have hdport : slice d.data 2 4 = slice first.data 2 4 := by rw [hdata, slice_append_left (by omega)]
  have hflags : d.data.getD 13 0 = first.data.getD 13 0 := by rw [hdata, getD_append_left (by omega)]
  rw [← hsport, ← hdport, ← hflags] at hclassify'
  rw [hproto, hclassify'] at hparse'
  rw [hclassify] at hparse
  exact ⟨_, by rw [hparse]; rfl, by rw [hparse']; rfl, rfl, rfl⟩

theorem FragmentsOf.updateFlow_eq (h : FragmentsOf d first later) (hsignature : SignatureFits d first) {p : FlowPacket}
    (htrans : p.trans = d.data) (hproto : p.proto = d.proto) (found : Option Flow) :
    updateFlow found { p with trans := first.data } = updateFlow found p := by
  have hlong := h.length
  have hdata := h.data
  have hoffset : d.data.getD 12 0 = first.data.getD 12 0 := by rw [hdata, getD_append_left (by omega)]
  have hhttp : httpClient { p with trans := first.data } = httpClient p := by
    by_cases htcp : p.proto = 6
    · have hlong' : 14 ≤ d.data.length := by
        rw [hdata, List.length_append]
        omega
      have hsame (signature : Bytes) (hmem : signature ∈ httpRequestMethods ++ [httpResponse]) :
          signature.isPrefixOf (first.data.drop ((first.data.getD 12 0).toNat / 16 * 4)) =
            signature.isPrefixOf (d.data.drop ((first.data.getD 12 0).toNat / 16 * 4)) := by
        have hfit := hsignature (hproto.symm.trans htcp) signature hmem
        rw [hoffset] at hfit
        rw [hdata, List.drop_append] at hfit ⊢
        exact isPrefixOf_append hfit
      have hrequest : (httpRequestMethods.any fun signature =>
            signature.isPrefixOf (first.data.drop ((first.data.getD 12 0).toNat / 16 * 4))) =
          httpRequestMethods.any fun signature =>
            signature.isPrefixOf (d.data.drop ((first.data.getD 12 0).toNat / 16 * 4)) := by
        rw [Bool.eq_iff_iff, List.any_eq_true, List.any_eq_true]
        exact exists_congr fun signature => and_congr_right fun hmem => by
          rw [hsame signature (List.mem_append_left _ hmem)]
      have hresponse := hsame httpResponse (List.mem_append_right _ List.mem_cons_self)
      simp only [httpClient, htcp, htrans, hlong, hlong', hoffset, hrequest, hresponse]
    · simp only [httpClient, htcp, false_and, if_false]
  have hsignal : signal { p with trans := first.data } = signal p := by
    rw [signal, signal, hhttp]
    rfl
  rw [updateFlow, updateFlow, hsignal]

end

/-! ### The file with the fragments -/

/-- A capture file with a datagram in it, and its fragments, which take its place in another file. The loop reads what
comes before, and what comes behind may be anything. -/
structure FragmentedPcap (host : Endian) where
  header : Bytes
  before : List RawRecord
  whole : RawRecord
  fragments : List RawRecord
  behind : Bytes
  datagram : Ipv4Frame
  first : Ipv4Frame
  later : List Ipv4Frame
  header_length : header.length = 24
  fits : ∀ r ∈ before ++ whole :: fragments, r.Fits
  whole_data : whole.data = datagram.bytes
  fragments_data : fragments.map RawRecord.data = (first :: later).map Ipv4Frame.bytes
  fragmentsOf : FragmentsOf datagram first later
  signatureFits : SignatureFits datagram first

namespace FragmentedPcap

variable {host : Endian} (f : FragmentedPcap host)

def wholeFile : Bytes := f.header ++ ((f.before ++ [f.whole]).flatMap (RawRecord.bytes host) ++ f.behind)

def fragmentedFile : Bytes := f.header ++ ((f.before ++ f.fragments).flatMap (RawRecord.bytes host) ++ f.behind)

/-- The packets up to the datagram. -/
def earlier : List FlowPacket := packetsOf (f.before.map RawRecord.data ++ [f.datagram.bytes])

/-- What the later fragments are read as. -/
def read : List FlowPacket := packetsOf (f.later.map Ipv4Frame.bytes)

/-- The packets behind the datagram. -/
def afterwards : List FlowPacket := packetsOf (recordsFrom host f.behind)

theorem classified_wholeFile : classified host f.wholeFile = f.earlier ++ f.afterwards := by
  have hfits : ∀ r ∈ f.before ++ [f.whole], r.Fits := by
    intro r hr
    refine f.fits r ?_
    rcases List.mem_append.mp hr with hr | hr
    · exact List.mem_append_left _ hr
    · exact List.mem_append_right _ (List.mem_singleton.mp hr ▸ List.mem_cons_self)
  rw [wholeFile, classified_append f.header_length hfits, List.map_append, List.map_singleton, f.whole_data]
  rfl

theorem classified_fragmentedFile :
    classified host f.fragmentedFile =
      packetsOf (f.before.map RawRecord.data ++ [f.first.bytes]) ++ f.read ++ f.afterwards := by
  have hfits : ∀ r ∈ f.before ++ f.fragments, r.Fits := by
    intro r hr
    refine f.fits r ?_
    rcases List.mem_append.mp hr with hr | hr
    · exact List.mem_append_left _ hr
    · exact List.mem_append_right _ (List.mem_cons_of_mem _ hr)
  rw [fragmentedFile, classified_append f.header_length hfits, List.map_append, f.fragments_data, List.map_cons,
    ← List.singleton_append, ← List.append_assoc, packetsOf_append _ (f.later.map Ipv4Frame.bytes)]
  rfl

theorem flowEntries_first (pcapName : Str) (rest : List FlowPacket) :
    flowEntries pcapName (packetsOf (f.before.map RawRecord.data ++ [f.first.bytes]) ++ rest) =
      flowEntries pcapName (f.earlier ++ rest) := by
  obtain ⟨p, hp, hfirst, htrans, hproto⟩ := f.fragmentsOf.first_eq
  have hone : packetsOf [f.datagram.bytes] = [p] := by rw [packetsOf, List.filterMap_cons, hp]; rfl
  have hone' : packetsOf [f.first.bytes] = [{ p with trans := f.first.data }] := by
    rw [packetsOf, List.filterMap_cons, hfirst]
    rfl
  have hgroup := Grouping.group_replace canonical updateFlow (x := { p with trans := f.first.data }) (y := p) rfl
    (f.fragmentsOf.updateFlow_eq f.signatureFits htrans hproto)
  rw [earlier, packetsOf_append, packetsOf_append, hone, hone', flowEntries, flowEntries, hgroup]

/-- **The flows of a fragmented datagram**: the files have the same entries if and only if the later fragments, read as
packets behind the datagram, go unnoticed. -/
theorem extractPcapFlowFiveTuples_fragmented_iff (files : List (Str × Bytes)) (pcapName : Str)
    (files' : List (Str × Bytes)) :
    extractPcapFlowFiveTuples host (files ++ (pcapName, f.fragmentedFile) :: files') =
        extractPcapFlowFiveTuples host (files ++ (pcapName, f.wholeFile) :: files') ↔
      Unnoticed f.earlier f.read f.afterwards := by
  have hone (file : Bytes) : extractPcapFlowFiveTuples host (files ++ (pcapName, file) :: files') =
      extractPcapFlowFiveTuples host files ++ (fileFlowEntries host pcapName file ++
        extractPcapFlowFiveTuples host files') := by
    rw [extractPcapFlowFiveTuples, List.flatMap_append, List.flatMap_cons]
    rfl
  rw [hone, hone, List.append_cancel_left_eq, List.append_cancel_right_eq, fileFlowEntries_eq, fileFlowEntries_eq,
    f.classified_wholeFile, f.classified_fragmentedFile, List.append_assoc, f.flowEntries_first, ← List.append_assoc,
    flowEntries_insert_iff]

end FragmentedPcap

/-- A UDP frame from 10.0.0.1 to 10.0.0.2. -/
def udpFrame (fragment : Bytes) (data : Bytes) : Ipv4Frame where
  link := List.replicate 12 2 ++ [0x08, 0x00]
  header := [0x45, 0, 0, 20 + UInt8.ofNat data.length, 0, 1] ++ fragment ++ [64, 17, 0, 0, 10, 0, 0, 1, 10, 0, 0, 2]
  data := data

/-- The UDP header with the ports 1000 and 2000, and eight bytes. -/
def udpStart : Bytes := [0x03, 0xE8, 0x07, 0xD0, 0, 24, 0, 0] ++ List.replicate 8 0

/-- A datagram whose later fragment begins with the bytes 0, 1, 0 and 2. -/
def twoFragments : FragmentedPcap .little where
  header := globalHeader
  before := []
  whole := ⟨0, 0, 58, (udpFrame [0, 0] (udpStart ++ [0, 1, 0, 2, 0, 0, 0, 0])).bytes⟩
  fragments := [⟨0, 0, 50, (udpFrame [0x20, 0] udpStart).bytes⟩,
    ⟨0, 0, 42, (udpFrame [0, 2] [0, 1, 0, 2, 0, 0, 0, 0]).bytes⟩]
  behind := []
  datagram := udpFrame [0, 0] (udpStart ++ [0, 1, 0, 2, 0, 0, 0, 0])
  first := udpFrame [0x20, 0] udpStart
  later := [udpFrame [0, 2] [0, 1, 0, 2, 0, 0, 0, 0]]
  header_length := rfl
  fits := by decide
  whole_data := rfl
  fragments_data := rfl
  fragmentsOf := ⟨by decide, by decide, by decide, by decide, rfl⟩
  signatureFits := fun htcp => absurd htcp (by decide)

/-- The later fragment makes a flow from port 1 to port 2. -/
theorem extractPcapFlowFiveTuples_twoFragments :
    extractPcapFlowFiveTuples .little [([], twoFragments.wholeFile)] =
        [⟨[], ['1', '0', '.', '0', '.', '0', '.', '1'], ['1', '0', '0', '0'],
          ['1', '0', '.', '0', '.', '0', '.', '2'], ['2', '0', '0', '0'], ['2']⟩] ∧
      extractPcapFlowFiveTuples .little [([], twoFragments.fragmentedFile)] =
        [⟨[], ['1', '0', '.', '0', '.', '0', '.', '1'], ['1', '0', '0', '0'],
            ['1', '0', '.', '0', '.', '0', '.', '2'], ['2', '0', '0', '0'], ['2']⟩,
          ⟨[], ['1', '0', '.', '0', '.', '0', '.', '1'], ['1'], ['1', '0', '.', '0', '.', '0', '.', '2'], ['2'],
            ['2']⟩] := by
  decide +kernel

theorem not_unnoticed_twoFragments :
    ¬Unnoticed twoFragments.earlier twoFragments.read twoFragments.afterwards :=
  mt (twoFragments.extractPcapFlowFiveTuples_fragmented_iff [] [] []).mpr (by decide +kernel)

end SocketServer.Capture
