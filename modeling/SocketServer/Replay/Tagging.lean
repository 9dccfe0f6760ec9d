import SocketServer.Replay.Packet

/-!
# VLAN tags in a replay

A tag stands at offset 12 of a frame: the TPID `0x8100`, the TCI, and behind it the ethertype of the frame.

* `addOrModifyVlan_tag` : `add_or_modify_vlan` tags an untagged frame; in a tagged one it cuts out the inner ethertype,
  because what it takes for the payload begins at the TCI. Applied twice, it cuts into its own tag.
* `modifyPacket_tagged` : `build_modified_packet` looks for the IP version in the TCI, so that a tagged frame is not
  rewritten, or rewritten at the wrong place.
-/

namespace SocketServer.Replay

open Bytes Inet

/-! ### Frames -/

def etherType (f : Bytes) : Nat := decode .big (slice f 12 14)

theorem exists_parts {f : Bytes} (h : 14 ≤ f.length) :
    ∃ dst src type payload : Bytes, dst.length = 6 ∧ src.length = 6 ∧ type.length = 2 ∧
      f = dst ++ src ++ type ++ payload := by
  refine ⟨f.take 6, (f.drop 6).take 6, (f.drop 12).take 2, f.drop 14, ?_, ?_, ?_, ?_⟩
  · rw [List.length_take]; omega
  · rw [List.length_take, List.length_drop]; omega
  · rw [List.length_take, List.length_drop]; omega
  · have h12 : f.drop 12 = (f.drop 6).drop 6 := by rw [List.drop_drop]
    have h14 : f.drop 14 = (f.drop 12).drop 2 := by rw [List.drop_drop]
    rw [h14, List.append_assoc, List.take_append_drop, h12, List.append_assoc, List.take_append_drop,
      List.take_append_drop]

section

variable {dst src type : Bytes} (hdst : dst.length = 6) (hsrc : src.length = 6) (htype : type.length = 2)
  (payload : Bytes)

include hdst hsrc htype

theorem etherType_parts : etherType (dst ++ src ++ type ++ payload) = decode .big type := by
  simp [etherType, slice_append_left, slice_append_right, slice_all, hdst, hsrc, htype]

theorem parseEthernet_parts :
    parseEthernet (dst ++ src ++ type ++ payload) = some ⟨dst, src, decode .big type, payload⟩ := by
  have hdrop : (dst ++ src ++ type ++ payload).drop 14 = payload :=
    List.drop_left' (by simp only [List.length_append, hdst, hsrc, htype])
  have hlen : ¬ (dst ++ src ++ type ++ payload).length < 14 := by
    simp only [List.length_append, hdst, hsrc, htype]
    omega
  have hsrc' : slice (dst ++ src ++ type ++ payload) 6 12 = src := by
    simp [slice_append_left, slice_append_right, slice_all, hdst, hsrc]
  have hdst' : slice (dst ++ src ++ type ++ payload) 0 6 = dst := by
    simp [slice_append_left, slice_all, hdst]
  have htype' := etherType_parts hdst hsrc htype payload
  rw [etherType] at htype'
  rw [parseEthernet, if_neg hlen, hdrop, hdst', hsrc', htype']

theorem addOrModifyVlan_parts {vid : Nat} (hvid : vid < 65536) :
    addOrModifyVlan (dst ++ src ++ type ++ payload) (some vid) =
      if type = [0x81, 0x00] then some (dst ++ src ++ type ++ (encode .big 2 vid ++ payload.drop 4))
      else some (dst ++ src ++ [0x81, 0x00] ++ (encode .big 2 vid ++ type ++ payload)) := by
  have hdrop : (dst ++ src ++ type ++ payload).drop 14 = payload :=
    List.drop_left' (by simp only [List.length_append, hdst, hsrc, htype])
  have hpack : packInt .big 2 (vid : Int) = some (encode .big 2 vid) := by
    rw [packInt, if_neg (by omega), Int.toNat_natCast, pack_of_lt hvid]
  have htype' : slice (dst ++ src ++ type ++ payload) 12 14 = type := by
    simp [slice_append_left, slice_append_right, slice_all, hdst, hsrc, htype]
  have hsrc' : slice (dst ++ src ++ type ++ payload) 6 12 = src := by
    simp [slice_append_left, slice_append_right, slice_all, hdst, hsrc]
  have hdst' : slice (dst ++ src ++ type ++ payload) 0 6 = dst := by
    simp [slice_append_left, slice_all, hdst]
  simp only [addOrModifyVlan, hdrop, hpack, htype', hsrc', hdst', Option.bind_eq_bind, Option.bind_some]
  simp only [List.append_assoc]

end

theorem decode_type_eq_iff {type : Bytes} (h : type.length = 2) : decode .big type = 0x8100 ↔ type = [0x81, 0x00] := by
  constructor
  · intro hdecode
    have hencode := encode_decode .big type
    rw [h, hdecode] at hencode
    exact hencode.symm
  · rintro rfl
    rfl

theorem parseVlan_append {tci type : Bytes} (htci : tci.length = 2) (htype : type.length = 2) (rest : Bytes) :
    parseVlan (tci ++ type ++ rest) = some ⟨decode .big tci % 0x1000, decode .big type, rest⟩ := by
  have hlen : ¬ (tci ++ type ++ rest).length < 4 := by
    simp only [List.length_append, htci, htype]
    omega
  have hdrop : (tci ++ type ++ rest).drop 4 = rest := List.drop_left' (by rw [List.length_append, htci, htype])
  have htci' : slice (tci ++ type ++ rest) 0 2 = tci := by simp [slice_append_left, slice_all, htci]
  have htype' : slice (tci ++ type ++ rest) 2 4 = type := by
    simp [slice_append_left, slice_append_right, slice_all, htci, htype]
  rw [parseVlan, if_neg hlen, hdrop, htci', htype']

theorem parseInner_untagged {dst src type : Bytes} (hdst : dst.length = 6) (hsrc : src.length = 6)
    (htype : type.length = 2) (hne : type ≠ [0x81, 0x00]) (payload : Bytes) :
    parseInner (dst ++ src ++ type ++ payload) = some (decode .big type, payload) := by
  rw [parseInner, parseEthernet_parts hdst hsrc htype, Option.bind_eq_bind, Option.bind_some,
    if_neg fun h => hne ((decode_type_eq_iff htype).mp h)]

theorem parseInner_tagged {dst src payload : Bytes} (hdst : dst.length = 6) (hsrc : src.length = 6) :
    parseInner (dst ++ src ++ [0x81, 0x00] ++ payload) =
      (parseVlan payload).map fun vlan => (vlan.ethType, vlan.payload) := by
  have htype : decode .big [0x81, 0x00] = 0x8100 := rfl
  rw [parseInner, parseEthernet_parts hdst hsrc rfl, Option.bind_eq_bind, Option.bind_some, if_pos htype]
  cases parseVlan payload with
  | none => rfl
  | some vlan => rfl

/-! ### Writing a tag -/

/-- `out` is parsed as frame `f` with a tag of VLAN `vid`. -/
def ParsesAs (f out : Bytes) (vid : Nat) : Prop :=
  ∃ before inner eth vlan, parseEthernet f = some before ∧ parseInner f = some inner ∧ parseEthernet out = some eth ∧
    parseVlan eth.payload = some vlan ∧ vlan.vlanId = vid ∧ eth.src = before.src ∧ eth.dst = before.dst ∧
    vlan.ethType = inner.1 ∧ vlan.payload = inner.2

/-- `add_or_modify_vlan` writes a tag that is read back, and writing it again changes nothing. -/
def TagRoundTrip (f : Bytes) (vid : Nat) : Prop :=
  ∃ out, addOrModifyVlan f (some vid) = some out ∧ ParsesAs f out vid ∧ addOrModifyVlan out (some vid) = some out

section

variable {dst src : Bytes} (hdst : dst.length = 6) (hsrc : src.length = 6) {vid : Nat} (hvid : vid ≤ 4095)

include hdst hsrc hvid

/-- An untagged frame gets the tag, but a second pass takes the tag for payload and cuts the ethertype out. -/
theorem tag_untagged {type : Bytes} (htype : type.length = 2) (hne : type ≠ [0x81, 0x00]) (payload : Bytes) :
    ∃ out, addOrModifyVlan (dst ++ src ++ type ++ payload) (some vid) = some out ∧
      ParsesAs (dst ++ src ++ type ++ payload) out vid ∧ addOrModifyVlan out (some vid) ≠ some out := by
  have htpid : [(0x81 : UInt8), 0x00].length = 2 := rfl
  have hshort : vid < 65536 := by omega
  have hadd := addOrModifyVlan_parts hdst hsrc htype payload hshort
  rw [if_neg hne] at hadd
  refine ⟨_, hadd, ?_, ?_⟩
  · have hbefore := parseEthernet_parts hdst hsrc htype payload
    have hinner := parseInner_untagged hdst hsrc htype hne payload
    have heth := parseEthernet_parts hdst hsrc htpid (encode .big 2 vid ++ type ++ payload)
    have hvlan := parseVlan_append (encode_length .big 2 vid) htype payload
    refine ⟨_, _, _, _, hbefore, hinner, heth, hvlan, ?_, rfl, rfl, rfl, rfl⟩
    change decode .big (encode .big 2 vid) % 0x1000 = vid
    rw [decode_encode_of_lt (by omega), Nat.mod_eq_of_lt (by omega)]
  · rw [addOrModifyVlan_parts hdst hsrc htpid _ hshort, if_pos rfl]
    intro h
    have hlen := congrArg List.length (Option.some.inj h)
    simp only [List.length_append, List.length_drop, encode_length, htype] at hlen
    omega

theorem tag_tagged {payload : Bytes} (hlong : 4 ≤ payload.length) :
    ∃ out, addOrModifyVlan (dst ++ src ++ [0x81, 0x00] ++ payload) (some vid) = some out ∧
      ¬ ParsesAs (dst ++ src ++ [0x81, 0x00] ++ payload) out vid ∧
      (addOrModifyVlan out (some vid) = some out ↔ payload.length = 4) := by
  have htpid : [(0x81 : UInt8), 0x00].length = 2 := rfl
  have hshort : vid < 65536 := by omega
  have hadd := addOrModifyVlan_parts hdst hsrc htpid payload hshort
  rw [if_pos rfl] at hadd
  refine ⟨_, hadd, ?_, ?_⟩
  · rintro ⟨before, inner, eth, vlan, hbefore, hinner, heth, hvlan, -, -, -, -, hpayload⟩
    rw [parseEthernet_parts hdst hsrc rfl] at heth
    obtain rfl := Option.some.inj heth
    have hinner' : inner.2 = payload.drop 4 := by
      rw [parseInner_tagged hdst hsrc, parseVlan, if_neg (by omega), Option.map_some] at hinner
      rw [← Option.some.inj hinner]
    rw [parseVlan] at hvlan
    split at hvlan
    · cases hvlan
    · rename_i hread
      obtain rfl := Option.some.inj hvlan
      have hlen := congrArg List.length (hpayload.trans hinner')
      simp only [List.length_append, List.length_drop, encode_length] at hlen hread
      omega
  · rw [addOrModifyVlan_parts hdst hsrc htpid _ hshort, if_pos rfl]
    constructor
    · intro h
      have hlen := congrArg List.length (Option.some.inj h)
      simp only [List.length_append, List.length_drop, encode_length] at hlen
      omega
    · intro h
      have hempty : payload.drop 4 = [] := List.drop_eq_nil_of_le (Nat.le_of_eq h)
      rw [hempty, List.append_nil, List.drop_eq_nil_of_le (by rw [encode_length]; decide), List.append_nil]

end

/-- **Writing a tag.** The output is parsed as it should be exactly for untagged frames; a second pass changes it
unless the frame was nothing but a header and a tag; so that no frame has both. -/
theorem addOrModifyVlan_tag {f : Bytes} {vid : Nat} (hf : 14 ≤ f.length)
    (htagged : etherType f = 0x8100 → 18 ≤ f.length) (hvid : vid ≤ 4095) :
    (∃ out, addOrModifyVlan f (some vid) = some out ∧ (ParsesAs f out vid ↔ etherType f ≠ 0x8100) ∧
      (addOrModifyVlan out (some vid) = some out ↔ etherType f = 0x8100 ∧ f.length = 18)) ∧
    ¬ TagRoundTrip f vid := by
  have hcases : ∃ out, addOrModifyVlan f (some vid) = some out ∧ (ParsesAs f out vid ↔ etherType f ≠ 0x8100) ∧
      (addOrModifyVlan out (some vid) = some out ↔ etherType f = 0x8100 ∧ f.length = 18) := by
    obtain ⟨dst, src, type, payload, hdst, hsrc, htype, rfl⟩ := exists_parts hf
    simp only [ne_eq, etherType_parts hdst hsrc htype, decode_type_eq_iff htype] at htagged ⊢
    by_cases htag : type = [0x81, 0x00]
    · subst htag
      have hlen := htagged rfl
      have hsum : (dst ++ src ++ [0x81, 0x00] ++ payload).length = 14 + payload.length := by
        simp only [List.length_append, hdst, hsrc, List.length_cons, List.length_nil]
      rw [hsum] at hlen ⊢
      have hlong : 4 ≤ payload.length := by omega
      obtain ⟨out, hadd, hparse, hagain⟩ := tag_tagged hdst hsrc hvid hlong
      exact ⟨out, hadd, iff_of_false hparse fun h => h rfl, hagain.trans ⟨fun h => ⟨rfl, by omega⟩, fun h => by omega⟩⟩
    · obtain ⟨out, hadd, hparse, hagain⟩ := tag_untagged hdst hsrc hvid htype htag payload
      exact ⟨out, hadd, iff_of_true hparse htag, iff_of_false hagain fun h => htag h.1⟩
  refine ⟨hcases, ?_⟩
  rintro ⟨out, hadd, hparse, hagain⟩
  obtain ⟨out', hadd', hparse', hagain'⟩ := hcases
  obtain rfl : out = out' := Option.some.inj (hadd.symm.trans hadd')
  exact hparse'.mp hparse (hagain'.mp hagain).1

theorem addOrModifyVlan_tag_zeros :
    (∃ out, addOrModifyVlan (List.replicate 14 0) (some (5 : Nat)) = some out ∧
      (ParsesAs (List.replicate 14 0) out 5 ↔ etherType (List.replicate 14 0) ≠ 0x8100) ∧
      (addOrModifyVlan out (some (5 : Nat)) = some out ↔
        etherType (List.replicate 14 0) = 0x8100 ∧ (List.replicate 14 (0 : UInt8)).length = 18)) ∧
    ¬ TagRoundTrip (List.replicate 14 0) 5 :=
  addOrModifyVlan_tag (by decide) (by decide) (by decide)

/-- A tagged frame that `add_or_modify_vlan` leaves without its ethertype `0x0800`. -/
theorem addOrModifyVlan_cuts :
    ¬ TagRoundTrip (List.replicate 12 1 ++ [0x81, 0x00, 0x00, 0x05, 0x08, 0x00, 0x45, 0x00]) 7 := by
  rintro ⟨out, hadd, ⟨before, inner, eth, vlan, -, hinner, heth, hvlan, -, -, -, htype, -⟩, -⟩
  have hout : addOrModifyVlan (List.replicate 12 1 ++ [0x81, 0x00, 0x00, 0x05, 0x08, 0x00, 0x45, 0x00])
      (some (7 : Nat)) = some (List.replicate 12 1 ++ [0x81, 0x00, 0x00, 0x07, 0x45, 0x00]) := by decide
  obtain rfl := Option.some.inj (hout.symm.trans hadd)
  obtain rfl : (0x0800, [0x45, 0x00]) = inner := Option.some.inj hinner
  obtain rfl : ⟨List.replicate 6 1, List.replicate 6 1, 0x8100, [0x00, 0x07, 0x45, 0x00]⟩ = eth := Option.some.inj heth
  obtain rfl : ⟨7, 0x4500, []⟩ = vlan := Option.some.inj hvlan
  exact absurd htype (by decide)

/-! ### Rewriting a tagged frame -/

def insertTag (tci : Nat) (f : Bytes) : Bytes := f.take 12 ++ (encode .big 2 0x8100 ++ encode .big 2 tci) ++ f.drop 12

theorem buildModifiedPacket_take {f : Bytes} (h : 14 ≤ f.length) (flow : FlowInfo) :
    (buildModifiedPacket f flow).take 14 = f.take 14 := by
  rw [buildModifiedPacket]
  cases rewritten flow (f.drop 14) with
  | none => rfl
  | some payload => exact List.take_left' (by rw [List.length_take]; omega)

theorem modifyPacket_cases (r : Replayer) (f : Bytes) (flow : Option FlowInfo) (direction : Direction) :
    (r.modifyPacket f flow direction).1 = f ∨
      ∃ targets, (r.modifyPacket f flow direction).1 = buildModifiedPacket f targets ∧ 14 ≤ f.length := by
  cases flow with
  | none => exact .inl rfl
  | some flow =>
    cases hinner : parseInner f with
    | none => left; simp [Replayer.modifyPacket, hinner]
    | some inner =>
      have hlen : 14 ≤ f.length := by
        by_contra hshort
        rw [parseInner, parseEthernet, if_pos (by omega)] at hinner
        cases hinner
      simp only [Replayer.modifyPacket, hinner]
      split_ifs
      · exact .inl rfl
      · exact .inl rfl
      · exact .inr ⟨_, rfl, hlen⟩

theorem buildModifiedPacket_of_version {f : Bytes} {flow : FlowInfo} {first : UInt8}
    (hfirst : (f.drop 14)[0]? = some first) (h4 : first.toNat / 16 ≠ 4) (h6 : first.toNat / 16 ≠ 6) :
    buildModifiedPacket f flow = f := by
  have hnone : rewritten flow (f.drop 14) = none := by simp [rewritten, hfirst, h4, h6]
  rw [buildModifiedPacket, hnone]

/-- A tagged frame is returned as it came unless the four high bits of its TCI read as an IP version. -/
theorem modifyPacket_insertTag (r : Replayer) {f : Bytes} (hf : 12 ≤ f.length) (flow : Option FlowInfo)
    (direction : Direction) {tci : Nat} (htci : tci < 65536) (h4 : tci / 4096 ≠ 4) (h6 : tci / 4096 ≠ 6) :
    (r.modifyPacket (insertTag tci f) flow direction).1 = insertTag tci f := by
  have hpayload : (insertTag tci f).drop 14 = UInt8.ofNat (tci / 256) :: UInt8.ofNat tci :: f.drop 12 := by
    have hsplit : insertTag tci f =
        (f.take 12 ++ encode .big 2 0x8100) ++ UInt8.ofNat (tci / 256) :: UInt8.ofNat tci :: f.drop 12 := by
      rw [insertTag, List.append_assoc, List.append_assoc, List.append_assoc]
      rfl
    rw [hsplit]
    exact List.drop_left' (by rw [List.length_append, List.length_take, encode_length]; omega)
  have hfirst : ((insertTag tci f).drop 14)[0]? = some (UInt8.ofNat (tci / 256)) := by rw [hpayload]; rfl
  have hversion : (UInt8.ofNat (tci / 256)).toNat / 16 = tci / 4096 := by
    rw [UInt8.toNat_ofNat']
    omega
  rcases modifyPacket_cases r (insertTag tci f) flow direction with h | ⟨targets, h, -⟩
  · exact h
  · rw [h, buildModifiedPacket_of_version hfirst (by rwa [hversion]) (by rwa [hversion])]

theorem insertTag_inj {f g : Bytes} (hfg : g.take 14 = f.take 14) {tci : Nat}
    (h : insertTag tci f = insertTag tci g) : f = g := by
  have h12 : g.take 12 = f.take 12 := by
    have htake := congrArg (List.take 12) hfg
    rwa [List.take_take, List.take_take] at htake
  rw [insertTag, insertTag, h12, List.append_cancel_left_eq] at h
  rw [← List.take_append_drop 12 f, ← List.take_append_drop 12 g, h12, h]

/-- **Rewriting a tagged frame.** Where a frame is rewritten, the same frame with a tag is returned as it
came, for every TCI whose four high bits are neither 4 nor 6: rewriting does not commute with tagging for any frame. -/
theorem modifyPacket_tagged (r : Replayer) {f : Bytes} (flow : FlowInfo) (direction : Direction)
    (hrewritten : (r.modifyPacket f (some flow) direction).1 ≠ f) :
    (∀ tci < 65536, tci / 4096 ≠ 4 → tci / 4096 ≠ 6 →
      (r.modifyPacket (insertTag tci f) (some flow) direction).1 = insertTag tci f ∧
      (r.modifyPacket (insertTag tci f) (some flow) direction).1 ≠
        insertTag tci (r.modifyPacket f (some flow) direction).1) ∧
    ¬ ∀ tci < 65536, (r.modifyPacket (insertTag tci f) (some flow) direction).1 =
      insertTag tci (r.modifyPacket f (some flow) direction).1 := by
  have hmodified : 14 ≤ f.length ∧ ((r.modifyPacket f (some flow) direction).1).take 14 = f.take 14 := by
    rcases modifyPacket_cases r f (some flow) direction with h | ⟨targets, h, hlen⟩
    · exact absurd h hrewritten
    · rw [h]
      exact ⟨hlen, buildModifiedPacket_take hlen targets⟩
  obtain ⟨hlen, htake⟩ := hmodified
  have hfails : ∀ tci < 65536, tci / 4096 ≠ 4 → tci / 4096 ≠ 6 →
      (r.modifyPacket (insertTag tci f) (some flow) direction).1 = insertTag tci f ∧
      (r.modifyPacket (insertTag tci f) (some flow) direction).1 ≠
        insertTag tci (r.modifyPacket f (some flow) direction).1 := by
    intro tci htci h4 h6
    have hsame := modifyPacket_insertTag r (f := f) (by omega) (some flow) direction htci h4 h6
    refine ⟨hsame, fun h => hrewritten ?_⟩
    rw [hsame] at h
    exact (insertTag_inj htake h).symm
  exact ⟨hfails, fun h => (hfails 0 (by decide) (by decide) (by decide)).2 (h 0 (by decide))⟩

/-- A TCP SYN from 10.0.0.1 to 10.0.0.2. -/
def synFrame : Bytes :=
  List.replicate 12 1 ++ [0x08, 0x00] ++
    [0x45, 0, 0, 40, 0, 1, 0, 0, 64, 6, 0x66, 0xcd, 10, 0, 0, 1, 10, 0, 0, 2] ++
    [0x12, 0x34, 0, 80, 0, 0, 0, 1, 0, 0, 0, 0, 0x50, 2, 0x20, 0, 0x69, 0x5b, 0, 0]

/-- A replay to port 8080. -/
def toPort8080 : Replayer := ⟨none, none, none, some 8080, none, none⟩

/-- A flow with its first packet. -/
def newFlow : FlowInfo := ⟨.uplink, none, none, none, none, none⟩

theorem modifyPacket_tagged_syn :
    (∀ tci < 65536, tci / 4096 ≠ 4 → tci / 4096 ≠ 6 →
      (toPort8080.modifyPacket (insertTag tci synFrame) (some newFlow) .uplink).1 = insertTag tci synFrame ∧
      (toPort8080.modifyPacket (insertTag tci synFrame) (some newFlow) .uplink).1 ≠
        insertTag tci (toPort8080.modifyPacket synFrame (some newFlow) .uplink).1) ∧
    ¬ ∀ tci < 65536, (toPort8080.modifyPacket (insertTag tci synFrame) (some newFlow) .uplink).1 =
      insertTag tci (toPort8080.modifyPacket synFrame (some newFlow) .uplink).1 :=
  modifyPacket_tagged toPort8080 newFlow .uplink (by decide +kernel)

/-- The SYN is rewritten; with a tag of VLAN 5 it is not. -/
theorem modifyPacket_vlan5 :
    etherType synFrame = 0x0800 ∧
    (toPort8080.modifyPacket synFrame (some newFlow) .uplink).1 ≠ synFrame ∧
    (toPort8080.modifyPacket (insertTag 5 synFrame) (some newFlow) .uplink).1 ≠
      insertTag 5 (toPort8080.modifyPacket synFrame (some newFlow) .uplink).1 := by
  decide +kernel

end SocketServer.Replay
