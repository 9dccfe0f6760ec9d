import SocketServer.Replay.Conversations

/-!
# Replaying a replay

What was sent may be captured on the other side and replayed again, with other fields forced. `modify_packet` computes
both checksums anew from the bytes that it does not overwrite, so that nothing of the first rewriting is left where the
second one writes.

* `newPacket_newPacket` : the last rewriting of a packet counts;
* `modifyPacket_over` : two rewritings are one, with the fields of both;
* `replayFiles_twice` : a replay of a recorded replay sends what one replay with the fields of both sends.
-/

namespace SocketServer.Replay

open Bytes Inet Capture

/-! ### Packets -/

section

variable {header src dst : Bytes} (heven : header.length % 2 = 0) (hlen : 20 ≤ header.length) (hsrc : src.length = 4)
  (hdst : dst.length = 4)

include heven hlen hsrc hdst

theorem newHeader_eq : newHeader header src dst =
    header.take 10 ++ encode .big 2 (checksum (header.take 10 ++ [0, 0] ++ src ++ dst ++ header.drop 20)) ++ src ++ dst ++
      header.drop 20 := by
  obtain ⟨hone, htwo⟩ := newHeader_lengths heven hlen hsrc hdst
  have hdrop : (splice (splice header 12 16 src) 16 20 dst).drop 12 = src ++ dst ++ header.drop 20 := by
    have htwelve : (header.take 12).length = 12 := by rw [List.length_take]; omega
    have hfirst : (splice header 12 16 src).take 16 = header.take 12 ++ src :=
      List.take_left' (by rw [List.length_append, htwelve, hsrc])
    rw [splice, hfirst, splice_drop_of_ge (by decide) (by omega) hsrc (by decide), List.append_assoc, List.append_assoc,
      List.drop_left' htwelve, List.append_assoc]
  have htake : (splice (splice header 12 16 src) 16 20 dst).take 10 = header.take 10 := by
    rw [splice_take_of_le (by decide) (by omega), splice_take_of_le (by decide) (by omega)]
  have hparts (x : Bytes) : splice (splice (splice header 12 16 src) 16 20 dst) 10 12 x =
      header.take 10 ++ x ++ src ++ dst ++ header.drop 20 := by
    rw [splice, htake, hdrop]
    simp only [List.append_assoc]
  rw [newHeader, fillOwnChecksum_of_even (by omega) (by omega), hparts, hparts]

theorem newHeader_newHeader {src' dst' : Bytes} (hsrc' : src'.length = 4) (hdst' : dst'.length = 4) :
    newHeader (newHeader header src dst) src' dst' = newHeader header src' dst' := by
  have hnew := newHeader_length heven hlen hsrc hdst
  have htake := newHeader_take heven hlen hsrc hdst
  have hdrop : (newHeader header src dst).drop 20 = header.drop 20 := by
    rw [newHeader_eq heven hlen hsrc hdst]
    apply List.drop_left'
    simp only [List.length_append, List.length_take, encode_length, hsrc, hdst]
    omega
  rw [newHeader_eq (by omega) (by omega) hsrc' hdst', newHeader_eq heven hlen hsrc' hdst', htake, hdrop]

end

theorem splice_append_right (s t : Bytes) {i : Nat} (hi : s.length ≤ i) (j : Nat) (hij : i ≤ j) (x : Bytes) :
    splice (s ++ t) i j x = s ++ splice t (i - s.length) (j - s.length) x := by
  rw [splice, splice, List.take_append, List.drop_append, List.take_of_length_le hi, List.drop_eq_nil_of_le (by omega),
    List.nil_append, List.append_assoc, List.append_assoc, List.append_assoc]

theorem newSegment_splice (sport dport sport' dport' : Int) (payload : Bytes) {i : Nat} (hi : 4 ≤ i) (x : Bytes) :
    newSegment sport' dport' (splice (newSegment sport dport payload) i (i + 2) x) =
      splice (newSegment sport' dport' payload) i (i + 2) x := by
  have hfour (p q : Int) : (encode .big 2 p.toNat ++ encode .big 2 q.toNat).length = 4 := by
    rw [List.length_append, encode_length, encode_length]
  have hsplice (p q : Int) : splice (newSegment p q payload) i (i + 2) x =
      encode .big 2 p.toNat ++ encode .big 2 q.toNat ++ splice (payload.drop 4) (i - 4) (i + 2 - 4) x := by
    rw [newSegment, splice_append_right _ _ (by rw [hfour]; exact hi) _ (by omega), hfour]
  rw [hsplice, hsplice, newSegment, List.drop_left' (hfour _ _)]

theorem fillChecksum_splice (pseudo : Bytes) {trans : Bytes} {i : Nat} (hi : i + 2 ≤ trans.length) {x : Bytes}
    (hx : x.length = i + 2 - i) : fillChecksum pseudo (splice trans i (i + 2) x) i = fillChecksum pseudo trans i := by
  have hlen := splice_length (by omega) hi hx
  rw [fillChecksum_eq _ (by omega), fillChecksum_eq _ hi, splice_splice (by omega) hi hx, splice_splice (by omega) hi hx]

/-- **The last rewriting counts.** -/
theorem newPacket_newPacket {ip src dst src' dst' : Bytes} (h : TransportPacket ip) (hsrc : src.length = 4)
    (hdst : dst.length = 4) (hsrc' : src'.length = 4) (hdst' : dst'.length = 4) (sport dport sport' dport' : Int) :
    newPacket (newPacket ip src dst sport dport) src' dst' sport' dport' = newPacket ip src' dst' sport' dport' := by
  have hihl := h.ihl
  have hlong := h.length_le
  have htake : (ip.take (headerLength ip)).length = headerLength ip := by rw [List.length_take]; omega
  have heven : (ip.take (headerLength ip)).length % 2 = 0 := by rw [htake, headerLength]; omega
  have hlen := (newHeader_length heven (by omega) hsrc hdst).trans htake
  obtain ⟨hheader, -⟩ := newPacket_packet h hsrc hdst sport dport
  have hproto := newPacket_protocol h hsrc hdst sport dport
  obtain ⟨hsix, hoffset⟩ := checksumOffset_le h
  have hfour : 4 ≤ (ip.drop (headerLength ip)).length := by rw [List.length_drop]; omega
  have hsegment (p q : Int) : (newSegment p q (ip.drop (headerLength ip))).length = ip.length - headerLength ip := by
    rw [newSegment_length p q hfour, List.length_drop]
  have hnew : newPacket ip src dst sport dport = newHeader (ip.take (headerLength ip)) src dst ++
      fillChecksum (slice (newHeader (ip.take (headerLength ip)) src dst) 12 20 ++ [0, protocol ip] ++
        encode .big 2 (newSegment sport dport (ip.drop (headerLength ip))).length)
        (newSegment sport dport (ip.drop (headerLength ip))) (checksumOffset (protocol ip)) := rfl
  rw [fillChecksum_eq _ (by rw [hsegment]; exact hoffset)] at hnew
  generalize checksum _ = c at hnew
  have hword := word_length (checksumOffset (protocol ip)) c
  have hheader' : (newPacket ip src dst sport dport).take (headerLength ip) =
      newHeader (ip.take (headerLength ip)) src dst := by rw [hnew, List.take_left' hlen]
  have htrans : (newPacket ip src dst sport dport).drop (headerLength ip) =
      splice (newSegment sport dport (ip.drop (headerLength ip))) (checksumOffset (protocol ip))
        (checksumOffset (protocol ip) + 2) (encode .big 2 c) := by rw [hnew, List.drop_left' hlen]
  have hseg := newSegment_splice sport dport sport' dport' (ip.drop (headerLength ip))
    (i := checksumOffset (protocol ip)) (by omega) (encode .big 2 c)
  have hseglen : (splice (newSegment sport' dport' (ip.drop (headerLength ip))) (checksumOffset (protocol ip))
      (checksumOffset (protocol ip) + 2) (encode .big 2 c)).length = ip.length - headerLength ip := by
    rw [splice_length (by omega) (by rw [hsegment]; exact hoffset) hword, hsegment]
  have hparts (p : Bytes) : newPacket p src' dst' sport' dport' =
      newHeader (p.take (headerLength p)) src' dst' ++
        fillChecksum (slice (newHeader (p.take (headerLength p)) src' dst') 12 20 ++ [0, protocol p] ++
          encode .big 2 (newSegment sport' dport' (p.drop (headerLength p))).length)
          (newSegment sport' dport' (p.drop (headerLength p))) (checksumOffset (protocol p)) := rfl
  rw [hparts, hparts ip, hheader, hproto, hheader', htrans, hseg, hseglen, hsegment,
    newHeader_newHeader heven (by omega) hsrc hdst hsrc' hdst',
    fillChecksum_splice _ (by rw [hsegment]; exact hoffset) hword]

/-! ### Rewriting twice -/

/-- The settings of `r'`, and what `r` forces where `r'` does not. -/
def Replayer.over (r r' : Replayer) : Replayer :=
  { forceIpSrc := (given r'.forceIpSrc).or (r.forceIpSrc.or r'.forceIpSrc)
    forceIpDst := (given r'.forceIpDst).or (r.forceIpDst.or r'.forceIpDst)
    forceSport := (nonzero r'.forceSport).or (r.forceSport.or r'.forceSport)
    forceDport := (nonzero r'.forceDport).or (r.forceDport.or r'.forceDport)
    uplinkVlan := r'.uplinkVlan
    downlinkVlan := r'.downlinkVlan }

section

variable {α : Type*} (p : α → Bool) (x y : Option α)

theorem filter_or : ((y.filter p).or (x.or y)).filter p = (y.filter p).or (x.filter p) := by
  cases hy : y.filter p with
  | none => cases x with
    | none => simpa using hy
    | some a => simp
  | some b => simp [(Option.filter_eq_some_iff.mp hy).2]

theorem isNone_over : ((y.filter p).or (x.or y)).isNone = (x.isNone && y.isNone) := by
  cases x with
  | none => cases y <;> simp
  | some a => cases y <;> simp

variable {p x y} in
theorem mem_over {a : α} (h : (y.filter p).or (x.or y) = some a) : x = some a ∨ y = some a := by
  rcases Option.or_eq_some_iff.mp h with hy | ⟨-, h⟩
  · exact .inr (Option.filter_eq_some_iff.mp hy).1
  · rcases Option.or_eq_some_iff.mp h with hx | ⟨-, hy⟩
    · exact .inl hx
    · exact .inr hy

end

theorem over_noTuple (r r' : Replayer) :
    (r.over r').noTupleModification = (r.noTupleModification && r'.noTupleModification) := by
  simp only [Replayer.noTupleModification, Replayer.over, given, nonzero, isNone_over]
  grind

theorem Replayer.Ipv4Forced.over {r r' : Replayer} (h : r.Ipv4Forced) (h' : r'.Ipv4Forced) : (r.over r').Ipv4Forced where
  src a ha := (mem_over ha).elim (h.src a) (h'.src a)
  dst a ha := (mem_over ha).elim (h.dst a) (h'.dst a)
  ports := by
    have hall (x y : Option Int) (hx : x.all portFits = true) (hy : y.all portFits = true) :
        ((nonzero y).or (x.or y)).all portFits = true := by
      rw [Option.all_eq_true]
      intro port hport
      rcases mem_over (Option.mem_def.mp hport) with hport | hport
      · exact Option.all_eq_true .. |>.mp hx port hport
      · exact Option.all_eq_true .. |>.mp hy port hport
    have hports := h.ports
    have hports' := h'.ports
    simp only [Replayer.portsFit, Bool.and_eq_true] at hports hports' ⊢
    exact ⟨hall _ _ hports.1 hports'.1, hall _ _ hports.2 hports'.2⟩

/-- The tuple required of both is the one that `r'` requires of what `r` requires. -/
theorem over_required (r r' : Replayer) (direction : Direction) (t : Tuple) :
    (r.over r').required direction t = r'.required direction (r.required direction t) := by
  cases direction <;> simp [Replayer.required, Replayer.over, given, nonzero, filter_or, Option.getD_or]

theorem required_of_noTuple {r : Replayer} (h : r.noTupleModification = true) (direction : Direction) (t : Tuple) :
    r.required direction t = t := by
  simp only [Replayer.noTupleModification, Bool.and_eq_true, Option.isNone_iff_eq_none] at h
  obtain ⟨⟨⟨hsrc, hdst⟩, hsport⟩, hdport⟩ := h
  cases direction <;> simp [Replayer.required, hsrc, hdst, hsport, hdport, given, nonzero]

theorem required_congr (r : Replayer) (direction : Direction) {t u : Tuple} (hsrc : inetAton t.src = inetAton u.src)
    (hdst : inetAton t.dst = inetAton u.dst) (hsport : t.sport = u.sport) (hdport : t.dport = u.dport) :
    inetAton (r.required direction t).src = inetAton (r.required direction u).src ∧
      inetAton (r.required direction t).dst = inetAton (r.required direction u).dst ∧
      (r.required direction t).sport = (r.required direction u).sport ∧
      (r.required direction t).dport = (r.required direction u).dport := by
  have haddress (x : Option Str) {a b : Str} (h : inetAton a = inetAton b) :
      inetAton (x.getD a) = inetAton (x.getD b) := by
    cases x with
    | none => exact h
    | some c => rfl
  cases direction with
  | uplink => exact ⟨haddress _ hsrc, haddress _ hdst, by simp [Replayer.required, hsport],
      by simp [Replayer.required, hdport]⟩
  | downlink => exact ⟨haddress _ hsrc, haddress _ hdst, by simp [Replayer.required, hsport],
      by simp [Replayer.required, hdport]⟩

theorem modifyPacket_congr {r r' : Replayer} (hr : r.Ipv4Forced) (hr' : r'.Ipv4Forced)
    (hsome : r.noTupleModification = false) (hsome' : r'.noTupleModification = false) {f : Bytes} (h : CapturedFrame f)
    (flow flow' : FlowInfo) (direction : Direction)
    (hrequired : r.required direction (tupleOf (f.drop 14)) = r'.required direction (tupleOf (f.drop 14))) :
    (r.modifyPacket f (some flow) direction).1 = (r'.modifyPacket f (some flow') direction).1 := by
  obtain ⟨src, dst, hsrc, hdst, hmodified⟩ := exists_newPacket hr h flow direction hsome
  obtain ⟨src', dst', hsrc', hdst', hmodified'⟩ := exists_newPacket hr' h flow' direction hsome'
  rw [hrequired] at hsrc hdst
  obtain rfl := Option.some.inj (hsrc.symm.trans hsrc')
  obtain rfl := Option.some.inj (hdst.symm.trans hdst')
  rw [hmodified, hmodified', hrequired]

/-- **Two rewritings are one**, with the fields of both: those that the second forces, and those that only the first
does. -/
theorem modifyPacket_over {r r' : Replayer} (hr : r.Ipv4Forced) (hr' : r'.Ipv4Forced) {f : Bytes}
    (h : CapturedFrame f) (flow flow' flow'' : FlowInfo) (direction : Direction) :
    (r'.modifyPacket (r.modifyPacket f (some flow) direction).1 (some flow') direction).1 =
      ((r.over r').modifyPacket f (some flow'') direction).1 := by
  have hboth := hr.over hr'
  have hnone := over_noTuple r r'
  have hrequired := over_required r r' direction (tupleOf (f.drop 14))
  cases hfirst : r.noTupleModification with
  | true =>
    rw [hfirst, Bool.true_and] at hnone
    rw [modifyPacket_of_noTuple hfirst]
    cases hsecond : r'.noTupleModification with
    | true => rw [modifyPacket_of_noTuple hsecond, modifyPacket_of_noTuple (hnone.trans hsecond)]
    | false =>
      refine modifyPacket_congr hr' hboth hsecond (hnone.trans hsecond) h flow' flow'' direction ?_
      rw [hrequired, required_of_noTuple hfirst]
  | false =>
    rw [hfirst, Bool.false_and] at hnone
    cases hsecond : r'.noTupleModification with
    | true =>
      rw [modifyPacket_of_noTuple hsecond]
      refine modifyPacket_congr hr hboth hfirst hnone h flow flow'' direction ?_
      rw [hrequired, required_of_noTuple hsecond]
    | false =>
      obtain ⟨src, dst, hsrc, hdst, hmodified⟩ := exists_newPacket hr h flow direction hfirst
      obtain ⟨hsfit, hdfit⟩ := required_fits hr direction (f.drop 14)
      have hsrc4 := inetAton_length hsrc
      have hdst4 := inetAton_length hdst
      have hcaptured := h.newPacket hsrc4 hdst4 (r.required direction (tupleOf (f.drop 14))).sport
        (r.required direction (tupleOf (f.drop 14))).dport
      obtain ⟨src', dst', hsrc', hdst', hmodified'⟩ := exists_newPacket hr' hcaptured flow' direction hsecond
      obtain ⟨src'', dst'', hsrc'', hdst'', hmodified''⟩ := exists_newPacket hboth h flow'' direction hnone
      rw [take_append_drop_eq h, tupleOf_newPacket h.packet hsrc4 hdst4 hsfit hdfit] at hsrc' hdst' hmodified'
      -- the second rewriting starts from the text of the addresses that the first one wrote
      obtain ⟨hsame, hsame', hsport, hdport⟩ := required_congr r' direction
        (t := ⟨dottedQuad src, dottedQuad dst, (r.required direction (tupleOf (f.drop 14))).sport,
          (r.required direction (tupleOf (f.drop 14))).dport⟩) (u := r.required direction (tupleOf (f.drop 14)))
        ((inetAton_dottedQuad hsrc4).trans hsrc.symm) ((inetAton_dottedQuad hdst4).trans hdst.symm) rfl rfl
      rw [hrequired] at hsrc'' hdst'' hmodified''
      obtain rfl := Option.some.inj (hsrc'.symm.trans (hsame.trans hsrc''))
      obtain rfl := Option.some.inj (hdst'.symm.trans (hsame'.trans hdst''))
      have hfour : (f.take 14).length = 14 := by rw [List.length_take, Nat.min_eq_left h.ethernet]
      rw [hmodified, hmodified', hmodified'', hsport, hdport, List.take_left' hfour,
        newPacket_newPacket h.packet hsrc4 hdst4 (inetAton_length hsrc') (inetAton_length hdst')]

/-! ### Replays of frames -/

/-- What is sent of a frame, and on which socket. -/
def Settings.wire (c : Settings) (table : FlowTable) (frame : Bytes) : Option (Socket × Bytes) := do
  let p ← flowPacket frame
  let direction := c.assigned table p.key
  (c.sentPacket frame (some (.new direction)) direction).map fun out => (c.socket direction, out)

/-- What is sent of these frames. -/
def Settings.replayed (c : Settings) (frames : List Bytes) : List (Socket × Bytes) :=
  frames.filterMap (c.wire (c.hints.track (frames.filterMap flowPacket)).flowTable)

theorem plan_wire (c : Settings) (records : List ReplayRecord) :
    (c.plan records).map (fun x => (c.socket x.direction, x.frame)) =
      c.replayed (records.map ReplayRecord.pktData) := by
  rw [Settings.plan, Settings.replayed, List.map_filterMap, List.filterMap_map, ← flowPackets_eq]
  refine List.filterMap_congr fun r _ => ?_
  rw [Function.comp_apply, Settings.sending, Settings.wire]
  cases flowPacket r.pktData with
  | none => rfl
  | some p => exact Option.map_map ..

/-- The sends that succeed. -/
def acceptedSends {α : Type*} (accepts : Nat → Bool) (xs : List α) : List α :=
  (xs.zipIdx.filter fun (_, i) => accepts i).map Prod.fst

theorem acceptedSends_all {α : Type*} (xs : List α) : acceptedSends (fun _ => true) xs = xs := by
  rw [acceptedSends, List.filter_true, List.zipIdx_map_fst]

/-- A run sends what the frames of its files determine, but for the sends that fail. -/
theorem replayFiles_replayed (c : Settings) (stamp : ReplayRecord → Nat × Nat) (accepts : Nat → Bool) (host : Endian)
    (writers : Writers) (files : List (Option Bytes)) :
    (c.replayFiles stamp accepts host ⟨∅, 0⟩ writers files).1.sent =
      acceptedSends accepts (c.replayed ((filesRecords host files).map ReplayRecord.pktData)) := by
  obtain ⟨hsent, -⟩ := replayFiles_emitted c stamp accepts host writers files
  rw [hsent, acceptedOf, ← plan_wire, acceptedSends, List.zipIdx_map, List.filter_map, List.map_map, List.map_map]
  rfl

theorem skipsFlows_undirected {c : Settings} (h : c.skipsFlows = true) : c.Undirected := by
  simp only [Settings.skipsFlows, Settings.directionless, Bool.and_eq_true, decide_eq_true_eq] at h
  exact ⟨h.1.1.1, h.1.1.2, h.1.2⟩

theorem wire_skips {c : Settings} (h : c.skipsFlows = true) (table : FlowTable) {frame : Bytes} {p : FlowPacket}
    (hp : flowPacket frame = some p) (direction : Direction) :
    c.wire table frame =
      (c.sentPacket frame (some (.new direction)) direction).map fun out => (c.socket direction, out) := by
  have hundirected := skipsFlows_undirected h
  rw [Settings.wire, hp, Option.bind_eq_bind, Option.bind_some]
  simp only [hundirected.sentPacket, hundirected.socket]

/-! ### Two replays -/

/-- The settings of the second replay, with the fields that the first one forced and with its hints. -/
def Settings.merge (c c' : Settings) : Settings :=
  { c' with toReplayer := c.toReplayer.over c'.toReplayer, hints := c.hints }

/-- A replay to `b` in the name of `a`, without VLANs. -/
structure Settings.Between (c : Settings) (a b : Str) : Prop where
  forced : c.Ipv4Forced
  src : c.forceIpSrc = some a
  dst : c.forceIpDst = some b
  canonicalSrc : canonical a = a
  canonicalDst : canonical b = b
  distinct : a ≠ b
  uplinkVlan : c.uplinkVlan = none
  downlinkVlan : c.downlinkVlan = none

section

variable {c c' : Settings} {a b : Str} (h : c.Between a b)

include h

theorem Settings.Between.given : given (some a) = some a ∧ given (some b) = some b := by
  obtain ⟨src, hsrc⟩ := Option.isSome_iff_exists.mp (h.forced.src a h.src)
  obtain ⟨dst, hdst⟩ := Option.isSome_iff_exists.mp (h.forced.dst b h.dst)
  exact ⟨given_of_aton hsrc, given_of_aton hdst⟩

theorem Settings.Between.noTuple : c.noTupleModification = false := by
  simp [Replayer.noTupleModification, h.src]

theorem Settings.Between.skips : c.skipsFlows = false := by
  simp [Settings.skipsFlows, h.noTuple]

/-- The addresses of what was sent say the direction. -/
theorem Settings.Between.direction (direction : Direction) (key : FiveTuple) :
    hintedDirection a b (c.rewriteKey direction key) = direction := by
  obtain ⟨ha, hb⟩ := h.given
  cases direction with
  | uplink =>
    simp [hintedDirection, Replayer.rewriteKey, h.src, h.dst, ha, hb, h.canonicalSrc, h.canonicalDst]
  | downlink =>
    simp [hintedDirection, Replayer.rewriteKey, h.src, h.dst, ha, hb, h.canonicalSrc, h.canonicalDst, h.distinct.symm]

theorem Settings.Between.sentPacket (f : Bytes) (flow : Option FlowInfo) (direction : Direction) :
    c.sentPacket f flow direction = some (c.modifyPacket f flow direction).1 := by
  unfold Replayer.sentPacket
  cases direction with
  | uplink => rw [h.uplinkVlan]; rfl
  | downlink => rw [h.downlinkVlan]; rfl

theorem Settings.Between.assigned (hhints : c'.hints = ⟨some a, some b⟩) (hflows : c'.skipsFlows = false)
    {packets : List FlowPacket} {p : FlowPacket} (hp : p ∈ packets) {direction : Direction} {key : FiveTuple}
    (hkey : p.key = c.rewriteKey direction key) :
    c'.assigned (c'.hints.track packets).flowTable p.key = direction := by
  obtain ⟨ha, hb⟩ := h.given
  obtain ⟨flow, hflow⟩ := (lookup_track_eq_some_iff c'.hints packets p.key).mpr ⟨p, hp, rfl⟩
  obtain ⟨hhint, -⟩ := track_stored c'.hints packets p.key flow hflow
  have hboth : c'.hints.both = some (a, b) := by
    simp [Hints.both, hhints, ha, hb]
  have hdirection := hhint a b hboth
  rw [hkey, h.direction] at hdirection
  simp [Settings.assigned, hflows, hflow, hdirection]

theorem Settings.Between.wire (table : FlowTable) {f : Bytes} {p : FlowPacket} (hp : flowPacket f = some p) :
    c.wire table f = some (c.socket (c.assigned table p.key),
      (c.modifyPacket f (some (.new (c.assigned table p.key))) (c.assigned table p.key)).1) := by
  rw [Settings.wire, hp, Option.bind_eq_bind, Option.bind_some]
  dsimp only
  rw [h.sentPacket, Option.map_some]

theorem Settings.Between.merge_assigned (table : FlowTable) (key : FiveTuple) :
    (c.merge c').assigned table key = c.assigned table key := by
  have hnone : (c.merge c').noTupleModification = false := by
    rw [Settings.merge, over_noTuple, h.noTuple, Bool.false_and]
  have hskips : (c.merge c').skipsFlows = false := by simp [Settings.skipsFlows, hnone]
  rw [Settings.assigned, Settings.assigned, hskips, h.skips]

theorem Settings.Between.wire_wire (hforced : c'.Ipv4Forced) (hhints : c'.hints = ⟨some a, some b⟩) {f : Bytes}
    {p : FlowPacket} (hp : flowPacket f = some p) (hf : CapturedFrame f) (table : FlowTable) {packets : List FlowPacket}
    (hsent : ∀ q, flowPacket (c.modifyPacket f (some (.new (c.assigned table p.key))) (c.assigned table p.key)).1 =
      some q → q ∈ packets) :
    c'.wire (c'.hints.track packets).flowTable
        (c.modifyPacket f (some (.new (c.assigned table p.key))) (c.assigned table p.key)).1 =
      (c.merge c').wire table f := by
  have hmerged : (c.merge c').assigned table p.key = c.assigned table p.key := h.merge_assigned table p.key
  generalize c.assigned table p.key = direction at hsent hmerged ⊢
  obtain ⟨-, hkey⟩ := frameKey_modifyPacket h.forced hf (.new direction) direction
  rw [frameKey, frameKey, hp, Option.map_some, Option.map_some, Option.map_eq_some_iff] at hkey
  obtain ⟨q, hq, hkey⟩ := hkey
  have hover := modifyPacket_over h.forced hforced hf (.new direction) (.new direction) (.new direction) direction
  have hwire : c'.wire (c'.hints.track packets).flowTable (c.modifyPacket f (some (.new direction)) direction).1 =
      (c'.sentPacket (c.modifyPacket f (some (.new direction)) direction).1 (some (.new direction)) direction).map
        fun out => (c'.socket direction, out) := by
    by_cases hskips : c'.skipsFlows = true
    · exact wire_skips hskips _ hq direction
    · rw [Settings.wire, hq, Option.bind_eq_bind, Option.bind_some,
        h.assigned hhints (Bool.eq_false_iff.mpr hskips) (hsent q hq) hkey]
  rw [hwire, Settings.wire, hp, Option.bind_eq_bind, Option.bind_some, hmerged]
  unfold Replayer.sentPacket
  rw [hover]
  rfl

theorem Settings.Between.replayed_replayed (hforced : c'.Ipv4Forced) (hhints : c'.hints = ⟨some a, some b⟩)
    {frames : List Bytes} (hframes : ∀ f ∈ frames, (flowPacket f).isSome = true → CapturedFrame f) :
    c'.replayed ((c.replayed frames).map Prod.snd) = (c.merge c').replayed frames := by
  have hsent : (c.replayed frames).map Prod.snd =
      frames.filterMap fun f => (c.wire (c.hints.track (frames.filterMap flowPacket)).flowTable f).map Prod.snd :=
    List.map_filterMap ..
  rw [hsent, Settings.replayed, List.filterMap_filterMap]
  refine List.filterMap_congr fun f hf => ?_
  cases hp : flowPacket f with
  | none =>
    have hnone (c : Settings) (table : FlowTable) : c.wire table f = none := by rw [Settings.wire, hp]; rfl
    rw [hnone, hnone]
    rfl
  | some p =>
    have hwire := h.wire (c.hints.track (frames.filterMap flowPacket)).flowTable hp
    rw [hwire, Option.map_some, Option.bind_some]
    refine h.wire_wire hforced hhints hp (hframes f hf (by rw [hp]; rfl)) _ fun q hq => ?_
    -- what is sent of `f` is among the frames of the second replay
    refine List.mem_filterMap.mpr ⟨_, List.mem_filterMap.mpr ⟨f, hf, ?_⟩, hq⟩
    rw [hwire, Option.map_some]

end

/-- **Replaying a replay.** A first replay to `b` in the name of `a` without VLANs, whose sends all succeed, of files in
which every frame that is parsed is as `CapturedFrame` says, and a second one of any recording of it, with the hints `a`
and `b` and with any addresses of IPv4 and ports of its own. The sockets of the second replay are given what those of one
replay of the first files are given with the fields of both, the fields of the second one where both are forced. -/
theorem replayFiles_twice {c c' : Settings} {a b : Str} (h : c.Between a b) (hforced : c'.Ipv4Forced)
    (hhints : c'.hints = ⟨some a, some b⟩) (stamp stamp' : ReplayRecord → Nat × Nat) (accepts : Nat → Bool)
    (host host' : Endian) (writers writers' : Writers) (files files' : List (Option Bytes))
    (hframes : ∀ r ∈ filesRecords host files, (flowPacket r.pktData).isSome = true → CapturedFrame r.pktData)
    (hrecording : (filesRecords host' files').map ReplayRecord.pktData =
      (c.replayFiles stamp (fun _ => true) host ⟨∅, 0⟩ writers files).1.sent.map Prod.snd) :
    (c'.replayFiles stamp' accepts host' ⟨∅, 0⟩ writers' files').1.sent =
      ((c.merge c').replayFiles stamp accepts host ⟨∅, 0⟩ writers files).1.sent := by
  have hall : (c.replayFiles stamp (fun _ => true) host ⟨∅, 0⟩ writers files).1.sent =
      c.replayed ((filesRecords host files).map ReplayRecord.pktData) := by
    rw [replayFiles_replayed, acceptedSends_all]
  have hboth : c'.replayed ((c.replayed ((filesRecords host files).map ReplayRecord.pktData)).map Prod.snd) = _ :=
    h.replayed_replayed hforced hhints fun f hf => by
      obtain ⟨r, hr, rfl⟩ := List.mem_map.mp hf
      exact hframes r hr
  rw [replayFiles_replayed, hrecording, hall, hboth, replayFiles_replayed]

/-- `10.0.0.9` for the client and `10.0.0.8` for the server. -/
def nineToEightSettings : Settings :=
  ⟨⟨some "10.0.0.9".toList, some "10.0.0.8".toList, none, none, none, none⟩, "eth0".toList, some "eth1".toList, false,
    ⟨none, none⟩⟩

/-- Another port and another server, for what these sent. -/
def portSettings : Settings :=
  ⟨⟨none, some "10.0.0.7".toList, some 4000, none, none, some 5⟩, "eth0".toList, none, false,
    ⟨some "10.0.0.9".toList, some "10.0.0.8".toList⟩⟩

/-- A recording of the first replay of `talkFile`. -/
def recordedFile : Bytes :=
  encode .little 4 0xA1B2C3D4 ++ List.replicate 20 0 ++
    (nineToEightSettings.replayFiles (fun r => (r.tsSec, r.tsFrac)) (fun _ => true) .little ⟨∅, 0⟩ ⟨none, none, none⟩
      [some talkFile]).1.sent.flatMap fun x => headerBytes .little 5 6 x.2.length ++ x.2

theorem nineToEight_between : nineToEightSettings.Between "10.0.0.9".toList "10.0.0.8".toList where
  forced :=
    { src := by
        rintro a ⟨⟩
        decide +kernel
      dst := by
        rintro a ⟨⟩
        decide +kernel
      ports := rfl }
  src := rfl
  dst := rfl
  canonicalSrc := by decide +kernel
  canonicalDst := by decide +kernel
  distinct := by decide
  uplinkVlan := rfl
  downlinkVlan := rfl

theorem port_forced : portSettings.Ipv4Forced where
  src := by
    rintro a ⟨⟩
  dst := by
    rintro a ⟨⟩
    decide +kernel
  ports := by decide

theorem replayFiles_twice_talk :
    (portSettings.replayFiles (fun _ => (0, 0)) (fun i => i == 1) .little ⟨∅, 0⟩ ⟨none, none, none⟩
        [some recordedFile]).1.sent =
      ((nineToEightSettings.merge portSettings).replayFiles (fun r => (r.tsSec, r.tsFrac)) (fun i => i == 1) .little
        ⟨∅, 0⟩ ⟨none, none, none⟩ [some talkFile]).1.sent := by
  refine replayFiles_twice nineToEight_between port_forced rfl (fun r => (r.tsSec, r.tsFrac)) _ _ _ _ _ _ _ _
    captured_talk ?_
  decide +kernel

end SocketServer.Replay
