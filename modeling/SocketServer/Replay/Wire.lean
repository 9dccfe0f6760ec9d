import SocketServer.Replay.FlowCount
import SocketServer.Replay.Statistics

/-!
# What a replay puts on the wire (`replay_files`)

`replay_files` goes through its files packet by packet, and the table of flows, with the targets that `modify_packet`
leaves in its entries, goes along. The entries are never revised where it matters, so that the whole run may be planned
beforehand: `Settings.plan` gives each packet the direction that its flow has when all packets have been seen, and the
frame that is made of it for this direction alone.

* `replayFiles_plan` : a run of `replay_files` is the plan, handed to the sockets frame by frame;
* `replayFiles_cached` : the cache files hold the frames that the sockets accepted, each in the file of its interface.
-/

namespace SocketServer.Replay

open Bytes Inet Capture

/-! ### The plan -/

/-- What `get_direction` is given of a packet; `none` where `replay_file` skips it. -/
def flowPacket (pktData : Bytes) : Option FlowPacket :=
  (parsePacket pktData).map fun (eth, ip) =>
    let transport := parseTransport ip.proto ip.payload
    ⟨getFiveTuple eth ip.src ip.dst transport.sport transport.dport ip.proto, ip.proto, transport.flags⟩

def flowPackets (records : List ReplayRecord) : List FlowPacket := records.filterMap fun r => flowPacket r.pktData

/-- The records that a run comes to: all, up to the first file that does not exist or ends in a record that raises. -/
def filesRecords (host : Endian) : List (Option Bytes) → List ReplayRecord
  | [] => []
  | none :: _ => []
  | some file :: files =>
    (replayRecords host file).1 ++ if (replayRecords host file).2.isNone then filesRecords host files else []

/-- A frame that is handed to a socket, and the record that it is made of. -/
structure Sending where
  record : ReplayRecord
  direction : Direction
  frame : Bytes
  deriving DecidableEq, Repr

/-- Packets are sent without flows. -/
def Settings.skipsFlows (c : Settings) : Bool := c.directionless && c.noTupleModification && !c.forceBuildFlow

/-- The direction of a key in a table that has it. -/
def Settings.assigned (c : Settings) (table : FlowTable) (key : FiveTuple) : Direction :=
  if c.skipsFlows then .uplink else ((table.lookup key).map FlowInfo.direction).getD .uplink

/-- What is made of a record. -/
def Settings.sending (c : Settings) (table : FlowTable) (r : ReplayRecord) : Option Sending := do
  let p ← flowPacket r.pktData
  let direction := c.assigned table p.key
  (c.sentPacket r.pktData (some (.new direction)) direction).map (Sending.mk r direction)

/-- The frames of a run, with the directions that the flows have in the end. -/
def Settings.plan (c : Settings) (records : List ReplayRecord) : List Sending :=
  records.filterMap (c.sending (c.hints.track (flowPackets records)).flowTable)

/-! ### Entries of the table -/

/-- The targets of an entry do not count. -/
structure SameFlows (s t : Flows) : Prop where
  entries : ∀ key, (s.flowTable.lookup key).map FlowInfo.direction = (t.flowTable.lookup key).map FlowInfo.direction
  count : s.flowCount = t.flowCount

theorem SameFlows.isNone {s t : Flows} (h : SameFlows s t) (key : FiveTuple) :
    (s.flowTable.lookup key).isNone = (t.flowTable.lookup key).isNone := by
  have hentry := congrArg Option.isNone (h.entries key)
  rwa [Option.isNone_map, Option.isNone_map] at hentry

theorem SameFlows.newDirection {s t : Flows} (h : SameFlows s t) (hints : Hints) (key : FiveTuple) (proto flags : Nat) :
    hints.newDirection s.flowTable key proto flags = hints.newDirection t.flowTable key proto flags := by
  have hentry (table : FlowTable) : hints.newDirection table key proto flags =
      hints.both.elim
        (if isSyn proto flags then .uplink
        else (((table.lookup key.reversed).map FlowInfo.direction).map Direction.opposite).getD .uplink)
        fun e => hintedDirection e.1 e.2 key := by
    rw [Hints.newDirection]
    cases hints.both with
    | some => rfl
    | none => cases table.lookup key.reversed <;> rfl
  rw [hentry, hentry, h.entries]

theorem SameFlows.getDirection {s t : Flows} (h : SameFlows s t) (hints : Hints) (key : FiveTuple)
    (proto flags : Nat) :
    (hints.getDirection s key proto flags).1 = (hints.getDirection t key proto flags).1 ∧
      SameFlows (hints.getDirection s key proto flags).2 (hints.getDirection t key proto flags).2 := by
  have hentry := h.entries key
  have hnone := h.isNone key.reversed
  have hnew := h.newDirection hints key proto flags
  rcases hs : s.flowTable.lookup key with _ | flow
  · rcases ht : t.flowTable.lookup key with _ | flow'
    · rw [Hints.getDirection, Hints.getDirection, hs, ht]
      dsimp only
      rw [hnew, hnone, h.count]
      refine ⟨rfl, fun k => ?_, rfl⟩
      by_cases hk : k = key
      · rw [hk, AList.lookup_insert, AList.lookup_insert]
      · rw [AList.lookup_insert_ne hk, AList.lookup_insert_ne hk, h.entries]
    · rw [hs, ht] at hentry
      cases hentry
  · rcases ht : t.flowTable.lookup key with _ | flow'
    · rw [hs, ht] at hentry
      cases hentry
    · rw [hs, ht] at hentry
      rw [getDirection_of_some hints hs, getDirection_of_some hints ht]
      exact ⟨Option.some.inj hentry, h⟩

theorem modifyPacket_direction (r : Replayer) (rawPkt : Bytes) (flow : Option FlowInfo) (direction : Direction) :
    (r.modifyPacket rawPkt flow direction).2.map FlowInfo.direction = flow.map FlowInfo.direction := by
  cases flow with
  | none => rfl
  | some flow =>
    unfold Replayer.modifyPacket
    dsimp only
    split_ifs
    · rfl
    · cases parseInner rawPkt with
      | none => rfl
      | some inner =>
        dsimp only
        split_ifs
        · rfl
        · cases direction <;> rfl

theorem SameFlows.setEntry {s t : Flows} (h : SameFlows s t) (r : Replayer) (rawPkt : Bytes)
    (key : Option FiveTuple) (direction : Direction) :
    SameFlows (s.setEntry key (r.modifyPacket rawPkt (key.bind s.flowTable.lookup) direction).2) t := by
  cases key with
  | none => exact h
  | some key =>
    have hkept := modifyPacket_direction r rawPkt (s.flowTable.lookup key) direction
    rw [Option.bind_some]
    rcases hentry : (r.modifyPacket rawPkt (s.flowTable.lookup key) direction).2 with _ | flow
    · exact h
    · rw [hentry] at hkept
      refine ⟨fun k => ?_, h.count⟩
      dsimp only [Flows.setEntry]
      by_cases hk : k = key
      · rw [hk, AList.lookup_insert, hkept, h.entries]
      · rw [AList.lookup_insert_ne hk, h.entries]

/-! ### The frames -/

/-- The frame returned depends on the targets alone, which are set anew for each packet. -/
theorem modifyPacket_new (r : Replayer) (rawPkt : Bytes) (flow : FlowInfo) (direction direction' : Direction) :
    (r.modifyPacket rawPkt (some flow) direction').1 = (r.modifyPacket rawPkt (some (.new direction)) direction').1 := by
  have htargets (ip : Option Ip) : buildModifiedPacket rawPkt (r.targets direction' ip flow) =
      buildModifiedPacket rawPkt (r.targets direction' ip (.new direction)) := by
    cases direction' <;> rfl
  unfold Replayer.modifyPacket
  dsimp only
  split_ifs
  · rfl
  · cases parseInner rawPkt with
    | none => rfl
    | some inner =>
      dsimp only
      split_ifs
      · rfl
      · exact htargets _

theorem sentPacket_new (r : Replayer) (rawPkt : Bytes) (flow : FlowInfo) (direction : Direction) :
    r.sentPacket rawPkt (some flow) direction = r.sentPacket rawPkt (some (.new direction)) direction := by
  unfold Replayer.sentPacket
  rw [modifyPacket_new r rawPkt flow direction]

theorem sentPacket_skips {c : Settings} (h : c.skipsFlows = true) (rawPkt : Bytes) (direction : Direction) :
    c.sentPacket rawPkt none direction = c.sentPacket rawPkt (some (.new direction)) direction := by
  rw [Settings.skipsFlows, Bool.and_eq_true, Bool.and_eq_true] at h
  unfold Replayer.sentPacket
  rw [modifyPacket_of_noTuple h.1.2, modifyPacket_of_noTuple h.1.2]

theorem flowPackets_append (records : List ReplayRecord) (r : ReplayRecord) :
    flowPackets (records ++ [r]) = flowPackets records ++ (flowPacket r.pktData).toList := by
  rw [flowPackets, flowPackets, List.filterMap_append]
  cases hp : flowPacket r.pktData <;> simp [hp]

theorem assigned_append (c : Settings) {seen : List FlowPacket} {p : FlowPacket} (hp : p ∈ seen)
    (rest : List FlowPacket) :
    c.assigned (c.hints.track (seen ++ rest)).flowTable p.key = c.assigned (c.hints.track seen).flowTable p.key := by
  obtain ⟨flow, hflow⟩ := (lookup_track_eq_some_iff c.hints seen p.key).mpr ⟨p, hp, rfl⟩
  rw [Settings.assigned, Settings.assigned, lookup_track_append hflow rest, hflow]

theorem assigned_last (c : Settings) (seen : List FlowPacket) (p : FlowPacket) :
    c.assigned (c.hints.track (seen ++ [p])).flowTable p.key =
      if c.skipsFlows then .uplink else c.hints.returned seen p := by
  rw [Settings.assigned, lookup_track_of_prefix c.hints List.prefix_rfl, Option.getD_some]

theorem plan_append (c : Settings) (records : List ReplayRecord) (r : ReplayRecord) :
    c.plan (records ++ [r]) = c.plan records ++
      (c.sending (c.hints.track (flowPackets (records ++ [r]))).flowTable r).toList := by
  have hold : records.filterMap (c.sending (c.hints.track (flowPackets (records ++ [r]))).flowTable) =
      c.plan records := by
    refine List.filterMap_congr fun q hq => ?_
    rw [Settings.sending, Settings.sending]
    cases hp : flowPacket q.pktData with
    | none => rfl
    | some p =>
      have hseen : p ∈ flowPackets records := List.mem_filterMap.mpr ⟨q, hq, hp⟩
      rw [Option.bind_eq_bind, Option.bind_some, Option.bind_some, flowPackets_append, assigned_append c hseen]
  rw [Settings.plan, List.filterMap_append, hold]
  cases hr : c.sending (c.hints.track (flowPackets (records ++ [r]))).flowTable r <;> simp [hr]

/-! ### One packet -/

section

variable (c : Settings) (stamp : ReplayRecord → Nat × Nat) (accepts : Nat → Bool)

/-- Handing a frame to its socket. -/
def Settings.emit (s : SendState) (x : Sending) : SendState :=
  c.transmitWith stamp accepts s x.record x.direction x.frame

theorem emit_flows (s : SendState) (flows : Flows) (x : Sending) :
    c.emit stamp accepts { s with flows := flows } x = { c.emit stamp accepts s x with flows := flows } := by
  unfold Settings.emit Settings.transmitWith Settings.transmit
  cases accepts s.attempts.length with
  | false => rfl
  | true =>
    dsimp only
    cases c.cache x.direction ⟨x.frame, (stamp x.record).1, (stamp x.record).2⟩ s.writers with
    | none => rfl
    | some w => cases x.direction <;> rfl

/-- A turn of the loop, without the count. -/
def Settings.turn (s : SendState) (r : ReplayRecord) : SendState := (c.replayPacketWith stamp accepts (s, 0) r).1

theorem turn_eq (s : SendState) (r : ReplayRecord) :
    c.turn stamp accepts s r =
      match flowPacket r.pktData with
      | none => s
      | some p =>
        if c.skipsFlows then (c.sendPacketWith stamp accepts s r .uplink none).1
        else
          (c.sendPacketWith stamp accepts { s with flows := (c.hints.getDirection s.flows p.key p.proto p.flags).2 } r
            (c.hints.getDirection s.flows p.key p.proto p.flags).1 (some p.key)).1 := by
  unfold Settings.turn Settings.replayPacketWith flowPacket
  rcases parsePacket r.pktData with _ | ⟨eth, ip⟩
  · rfl
  · exact apply_ite Prod.fst ..

/-- The count of the packets does not matter for a turn. -/
theorem foldl_turn (records : List ReplayRecord) (s : SendState) (n : Nat) :
    (records.foldl (c.replayPacketWith stamp accepts) (s, n)).1 = records.foldl (c.turn stamp accepts) s := by
  induction records generalizing s n with
  | nil => rfl
  | cons r records ih =>
    rw [List.foldl_cons, List.foldl_cons, Settings.turn, ← ih _ (c.replayPacketWith stamp accepts (s, n) r).2]
    congr 1
    unfold Settings.replayPacketWith
    rcases parsePacket r.pktData with _ | ⟨eth, ip⟩
    · rfl
    · rfl

theorem sendPacketWith_eq (s : SendState) (r : ReplayRecord) (direction : Direction) (key : Option FiveTuple)
    (hkey : key = none ∧ c.skipsFlows = true ∨ ∃ flow, key.bind s.flows.flowTable.lookup = some flow) :
    (c.sendPacketWith stamp accepts s r direction key).1 =
      { ((c.sentPacket r.pktData (some (.new direction)) direction).map (Sending.mk r direction)).elim s
          (c.emit stamp accepts s) with
        flows := s.flows.setEntry key (c.modifyPacket r.pktData (key.bind s.flows.flowTable.lookup) direction).2 } := by
  have hframe : c.sentPacket r.pktData (key.bind s.flows.flowTable.lookup) direction =
      c.sentPacket r.pktData (some (.new direction)) direction := by
    rcases hkey with ⟨rfl, hskips⟩ | ⟨flow, hflow⟩
    · exact sentPacket_skips hskips r.pktData direction
    · rw [hflow, sentPacket_new]
  unfold Settings.sendPacketWith
  dsimp only
  rw [hframe]
  cases c.sentPacket r.pktData (some (.new direction)) direction with
  | none => rfl
  | some frame => exact emit_flows c stamp accepts s _ ⟨r, direction, frame⟩

/-! ### The run -/

/-- The state after these records: the plan handed to the sockets, and a table of the flows. -/
structure Planned (start : SendState) (records : List ReplayRecord) (s : SendState) : Prop where
  flows : if c.skipsFlows then s.flows = start.flows else SameFlows s.flows (c.hints.track (flowPackets records))
  sent : s = { (c.plan records).foldl (c.emit stamp accepts) start with flows := s.flows }

variable {c stamp accepts}

/-- **One packet** is planned for the direction that it is sent in. -/
theorem Planned.turn {start s : SendState} {records : List ReplayRecord} (h : Planned c stamp accepts start records s)
    (r : ReplayRecord) : Planned c stamp accepts start (records ++ [r]) (c.turn stamp accepts s r) := by
  obtain ⟨hflows, hsent⟩ := h
  rw [turn_eq]
  cases hp : flowPacket r.pktData with
  | none =>
    have hnone (table : FlowTable) : c.sending table r = none := by rw [Settings.sending, hp]; rfl
    have hsame : flowPackets (records ++ [r]) = flowPackets records := by
      rw [flowPackets_append, hp, Option.toList_none, List.append_nil]
    refine ⟨by rwa [hsame], ?_⟩
    rwa [plan_append, hnone, Option.toList_none, List.append_nil]
  | some p =>
    have hpackets : flowPackets (records ++ [r]) = flowPackets records ++ [p] := by
      rw [flowPackets_append, hp, Option.toList_some]
    have hlast := assigned_last c (flowPackets records) p
    have hplan (direction : Direction) (t : SendState)
        (hdirection : c.assigned (c.hints.track (flowPackets records ++ [p])).flowTable p.key = direction)
        (ht : t = { (c.plan records).foldl (c.emit stamp accepts) start with flows := t.flows }) (flows : Flows) :
        { ((c.sentPacket r.pktData (some (.new direction)) direction).map (Sending.mk r direction)).elim t
            (c.emit stamp accepts t) with flows := flows } =
          { (c.plan (records ++ [r])).foldl (c.emit stamp accepts) start with flows := flows } := by
      rw [plan_append, hpackets, Settings.sending, hp, Option.bind_eq_bind, Option.bind_some, hdirection]
      cases (c.sentPacket r.pktData (some (.new direction)) direction).map (Sending.mk r direction) with
      | none =>
        rw [Option.toList_none, List.append_nil, ht]
        rfl
      | some x =>
        rw [Option.toList_some, List.foldl_append, ht]
        exact congrArg (fun u : SendState => { u with flows := flows }) (emit_flows c stamp accepts _ t.flows x)
    dsimp only
    by_cases hskips : c.skipsFlows = true
    · rw [if_pos hskips] at hflows hlast ⊢
      rw [sendPacketWith_eq c stamp accepts s r .uplink none (.inl ⟨rfl, hskips⟩)]
      refine ⟨?_, hplan .uplink s hlast hsent _⟩
      rw [if_pos hskips]
      exact hflows
    · rw [if_neg hskips] at hflows hlast ⊢
      obtain ⟨hreturned, hnext⟩ := hflows.getDirection c.hints p.key p.proto p.flags
      rw [← track_append] at hnext
      have hentry := lookup_getDirection_self c.hints s.flows p.key p.proto p.flags
      obtain ⟨flow, hflow, -⟩ := Option.map_eq_some_iff.mp hentry
      have hsent' := congrArg
        (fun u : SendState => { u with flows := (c.hints.getDirection s.flows p.key p.proto p.flags).2 }) hsent
      rw [sendPacketWith_eq c stamp accepts { s with flows := _ } r _ (some p.key) (.inr ⟨flow, hflow⟩)]
      refine ⟨?_, hplan _ { s with flows := _ } (hlast.trans hreturned.symm) hsent' _⟩
      rw [if_neg hskips, hpackets]
      exact hnext.setEntry c.toReplayer r.pktData (some p.key) _

theorem Planned.run {start : SendState} (hstart : start.flows = ⟨∅, 0⟩) (records : List ReplayRecord) :
    Planned c stamp accepts start records (records.foldl (c.turn stamp accepts) start) := by
  induction records using List.reverseRecOn with
  | nil =>
    refine ⟨?_, rfl⟩
    split_ifs
    · rfl
    · rw [List.foldl_nil, hstart]
      exact ⟨fun _ => rfl, rfl⟩
  | append_singleton records r ih =>
    rw [List.foldl_append]
    exact ih.turn r

variable (c stamp accepts)

theorem replayEach_fst (host : Endian) (files : List (Option Bytes)) (s : SendState) (n m : Nat) :
    (c.replayEach stamp accepts host s n m files).1 =
      (filesRecords host files).foldl (c.turn stamp accepts) s := by
  induction files generalizing s n m with
  | nil => rfl
  | cons file files ih =>
    cases file with
    | none => rfl
    | some file =>
      have hloop := foldl_turn c stamp accepts (replayRecords host file).1 s 0
      rw [Settings.replayEach, filesRecords, List.foldl_append, Settings.replayFileWith, ← hloop]
      dsimp only
      cases (replayRecords host file).2 with
      | none => exact ih _ _ _
      | some e => rfl

theorem replayFiles_fst (host : Endian) (flows : Flows) (writers : Writers) (files : List (Option Bytes)) :
    (c.replayFiles stamp accepts host flows writers files).1 =
      (filesRecords host files).foldl (c.turn stamp accepts) (startReplay flows writers) := by
  rw [← replayEach_fst c stamp accepts host files _ 0 0, Settings.replayFiles]
  rcases c.replayEach stamp accepts host (startReplay flows writers) 0 0 files with ⟨s, e | n⟩
  · rfl
  · rfl

theorem emit_attempts (xs : List Sending) (s : SendState) :
    (xs.foldl (c.emit stamp accepts) s).attempts.length = s.attempts.length + xs.length := by
  induction xs generalizing s with
  | nil => rfl
  | cons x xs ih =>
    have hone : (c.emit stamp accepts s x).attempts.length = s.attempts.length + 1 := List.length_append
    rw [List.foldl_cons, ih, hone, List.length_cons]
    omega

theorem replayFiles_planned (host : Endian) (writers : Writers) (files : List (Option Bytes)) :
    Planned c stamp accepts (startReplay ⟨∅, 0⟩ writers) (filesRecords host files)
      (c.replayFiles stamp accepts host ⟨∅, 0⟩ writers files).1 := by
  rw [replayFiles_fst]
  exact .run rfl _

/-- **A replay is its plan**, for every configuration, any files and any sends that fail: `replay_files` hands the
frames of the plan to the sockets, one after the other, and nothing else. What it returns counts these frames and, where
flows are not skipped, the flows of their packets. -/
theorem replayFiles_plan (host : Endian) (writers : Writers) (files : List (Option Bytes)) :
    ∃ flows,
      (c.replayFiles stamp accepts host ⟨∅, 0⟩ writers files).1 =
          { (c.plan (filesRecords host files)).foldl (c.emit stamp accepts) (startReplay ⟨∅, 0⟩ writers) with
            flows := flows } ∧
        ∀ stats, (c.replayFiles stamp accepts host ⟨∅, 0⟩ writers files).2 = .ok stats →
          stats.totalPackets = (c.plan (filesRecords host files)).length ∧
            stats.flowCount = if c.skipsFlows then 0 else (flowsSeen (flowPackets (filesRecords host files))).card := by
  obtain ⟨hflows, hsent⟩ := replayFiles_planned c stamp accepts host writers files
  refine ⟨_, hsent, fun stats hstats => ?_⟩
  have hlen := congrArg (fun s : SendState => s.attempts.length) hsent
  have hstart : Tally accepts (startReplay ⟨∅, 0⟩ writers) := ⟨rfl, rfl, rfl, rfl⟩
  rw [Settings.replayFiles] at hstats hflows hlen
  rcases heach : c.replayEach stamp accepts host (startReplay ⟨∅, 0⟩ writers) 0 0 files with ⟨s, e | ⟨n, m⟩⟩
  · rw [heach] at hstats
    cases hstats
  · rw [heach] at hstats hflows hlen
    obtain rfl := Except.ok.inj hstats
    obtain ⟨-, rfl⟩ := tally_replayEach c stamp hstart host files rfl heach
    refine ⟨hlen.trans ((emit_attempts c stamp accepts _ _).trans (Nat.zero_add _)), ?_⟩
    dsimp only at hflows ⊢
    split_ifs at hflows ⊢
    · rw [hflows]
      rfl
    · rw [hflows.count, flowCount_track]

end

/-! ### The cache files -/

inductive CacheFile
  | uplink
  | downlink
  | single
  deriving DecidableEq, Repr

def Writers.get (w : Writers) : CacheFile → Option Bytes
  | .uplink => w.uplink
  | .downlink => w.downlink
  | .single => w.single

def Writers.set (w : Writers) (f : CacheFile) (content : Option Bytes) : Writers :=
  match f with
  | .uplink => { w with uplink := content }
  | .downlink => { w with downlink := content }
  | .single => { w with single := content }

theorem Writers.get_set (w : Writers) (f : CacheFile) (content : Option Bytes) : (w.set f content).get f = content := by
  cases f <;> rfl

theorem Writers.get_set_of_ne (w : Writers) {f g : CacheFile} (h : f ≠ g) (content : Option Bytes) :
    (w.set f content).get g = w.get g := by
  cases f <;> cases g <;> first | rfl | exact absurd rfl h

theorem Writers.set_get (w : Writers) (f : CacheFile) : w.set f (w.get f) = w := by
  cases f <;> rfl

/-- The file that a direction is cached in. -/
def Settings.fileOf (c : Settings) (direction : Direction) : CacheFile :=
  if c.uplinkIface ≠ c.downlink then
    match direction with
    | .uplink => .uplink
    | .downlink => .downlink
  else .single

/-- `_setup_pcap_caching`, where some files may not open. -/
def Settings.setupPcapCaching (c : Settings) (cacheEnabled : Bool) (opens : CacheFile → Bool) : Writers :=
  let writer (f : CacheFile) := if cacheEnabled && opens f then some writePcapGlobalHeader else none
  if c.uplinkIface ≠ c.downlink then ⟨writer .uplink, writer .downlink, none⟩ else ⟨none, none, writer .single⟩

def Sending.cached (stamp : ReplayRecord → Nat × Nat) (x : Sending) : CachedPacket :=
  ⟨x.frame, (stamp x.record).1, (stamp x.record).2⟩

/-- `_write_pcap_packet` does not raise. -/
def CachedPacket.fits (p : CachedPacket) : Bool := (packRecord .big p.tsSec p.tsUsec p.packetData).isSome

/-- The frames that the sockets accept. -/
def acceptedOf (accepts : Nat → Bool) (xs : List Sending) : List Sending :=
  (xs.zipIdx.filter fun (_, i) => accepts i).map Prod.fst

theorem acceptedOf_append (accepts : Nat → Bool) (xs : List Sending) (x : Sending) :
    acceptedOf accepts (xs ++ [x]) = acceptedOf accepts xs ++ if accepts xs.length then [x] else [] := by
  rw [acceptedOf, List.zipIdx_append, List.filter_append, List.map_append]
  cases h : accepts xs.length <;> simp [acceptedOf, h]

theorem mem_of_mem_acceptedOf {accepts : Nat → Bool} {xs : List Sending} {x : Sending} (h : x ∈ acceptedOf accepts xs) :
    x ∈ xs := by
  obtain ⟨⟨y, i⟩, hy, rfl⟩ := List.mem_map.mp h
  exact List.fst_mem_of_mem_zipIdx (List.mem_filter.mp hy).1

theorem writePcapPacket_eq (f : Bytes) (p : CachedPacket) :
    writePcapPacket f p = if p.fits then some (f ++ p.record.bytes .big) else none := by
  cases hpack : packRecord .big p.tsSec p.tsUsec p.packetData with
  | none => rw [writePcapPacket, CachedPacket.fits, hpack]; rfl
  | some record =>
    have hwrite : writePcapPacket f p = some (f ++ record) := by rw [writePcapPacket, hpack]; rfl
    have hbytes := (writePcapPacket_eq_some hwrite).2
    rw [hwrite, hbytes, CachedPacket.fits, hpack]
    rfl

section

variable (c : Settings) (stamp : ReplayRecord → Nat × Nat) (accepts : Nat → Bool)

theorem cache_eq (direction : Direction) (p : CachedPacket) (w : Writers) :
    c.cache direction p w = (writeCached p (w.get (c.fileOf direction))).map (w.set (c.fileOf direction)) := by
  unfold Settings.cache Settings.fileOf
  split_ifs
  · cases direction <;> rfl
  · rfl

/-- What a packet adds to a file: a file that is not open takes nothing, and neither do the files of other interfaces. -/
theorem cache_get (direction : Direction) (p : CachedPacket) (w : Writers) (f : CacheFile) :
    ((c.cache direction p w).getD w).get f =
      (w.get f).map (· ++ if c.fileOf direction = f ∧ p.fits then p.record.bytes .big else []) := by
  have hsame : w.get f = (w.get f).map (· ++ []) := by simp
  rw [cache_eq]
  cases hopen : w.get (c.fileOf direction) with
  | none =>
    have hset : w.set (c.fileOf direction) none = w := by rw [← hopen, Writers.set_get]
    rw [writeCached, Option.map_some, hset, Option.getD_some]
    split_ifs with h
    · rw [← h.1, hopen]
      rfl
    · exact hsame
  | some file =>
    rw [writeCached, writePcapPacket_eq]
    cases p.fits with
    | false =>
      simp only [Bool.false_eq_true, if_false, and_false, Option.map_none, Option.getD_none]
      exact hsame
    | true =>
      simp only [if_true, and_true, Option.map_some, Option.getD_some]
      split_ifs with h
      · rw [h, Writers.get_set, ← h, hopen]
        rfl
      · rw [Writers.get_set_of_ne _ h]
        exact hsame

theorem emit_get (s : SendState) (x : Sending) (f : CacheFile) :
    (c.emit stamp accepts s x).writers.get f =
      (s.writers.get f).map (· ++ if accepts s.attempts.length ∧ c.fileOf x.direction = f ∧ (x.cached stamp).fits then
        (x.cached stamp).record.bytes .big else []) := by
  have hcache := cache_get c x.direction (x.cached stamp) s.writers f
  unfold Settings.emit Settings.transmitWith Settings.transmit
  cases accepts s.attempts.length with
  | false => simp
  | true =>
    simp only [if_true, true_and]
    rw [← hcache]
    have hcached : x.cached stamp = ⟨x.frame, (stamp x.record).1, (stamp x.record).2⟩ := rfl
    rw [hcached]
    cases c.cache x.direction ⟨x.frame, (stamp x.record).1, (stamp x.record).2⟩ s.writers with
    | none => rfl
    | some w => cases x.direction <;> rfl

theorem emit_sent (s : SendState) (x : Sending) :
    (c.emit stamp accepts s x).sent =
      s.sent ++ if accepts s.attempts.length then [(c.socket x.direction, x.frame)] else [] := by
  unfold Settings.emit Settings.transmitWith Settings.transmit
  cases accepts s.attempts.length with
  | false => exact (List.append_nil _).symm
  | true =>
    simp only [if_true]
    cases c.cache x.direction ⟨x.frame, (stamp x.record).1, (stamp x.record).2⟩ s.writers with
    | none => rfl
    | some w => cases x.direction <;> rfl

/-- **Sending a plan**: what the sockets were given, and what every file holds. -/
theorem foldl_emit (flows : Flows) (writers : Writers) (xs : List Sending) :
    (xs.foldl (c.emit stamp accepts) (startReplay flows writers)).sent =
        (acceptedOf accepts xs).map (fun x => (c.socket x.direction, x.frame)) ∧
      ∀ f, (xs.foldl (c.emit stamp accepts) (startReplay flows writers)).writers.get f =
        (writers.get f).map (· ++ ((acceptedOf accepts xs).filter fun x =>
          decide (c.fileOf x.direction = f) && (x.cached stamp).fits).flatMap fun x =>
            (x.cached stamp).record.bytes .big) := by
  induction xs using List.reverseRecOn with
  | nil => exact ⟨rfl, fun f => by simp [acceptedOf, startReplay]⟩
  | append_singleton xs x ih =>
    obtain ⟨hsent, hget⟩ := ih
    have hlen : (xs.foldl (c.emit stamp accepts) (startReplay flows writers)).attempts.length = xs.length :=
      (emit_attempts c stamp accepts xs _).trans (Nat.zero_add _)
    rw [List.foldl_append, List.foldl_cons, List.foldl_nil, acceptedOf_append]
    refine ⟨?_, fun f => ?_⟩
    · rw [emit_sent, hsent, hlen, List.map_append]
      split_ifs <;> rfl
    · rw [emit_get, hget, hlen, Option.map_map, List.filter_append, List.flatMap_append]
      congr 1
      funext file
      dsimp only [Function.comp_apply]
      rw [List.append_assoc]
      cases accepts xs.length with
      | false => rfl
      | true =>
        by_cases hfile : c.fileOf x.direction = f ∧ (x.cached stamp).fits = true
        · simp [hfile]
        · simp [hfile]

end

theorem replayFiles_emitted (c : Settings) (stamp : ReplayRecord → Nat × Nat) (accepts : Nat → Bool) (host : Endian)
    (writers : Writers) (files : List (Option Bytes)) :
    (c.replayFiles stamp accepts host ⟨∅, 0⟩ writers files).1.sent =
        (acceptedOf accepts (c.plan (filesRecords host files))).map (fun x => (c.socket x.direction, x.frame)) ∧
      ∀ f, (c.replayFiles stamp accepts host ⟨∅, 0⟩ writers files).1.writers.get f =
        (writers.get f).map (· ++ ((acceptedOf accepts (c.plan (filesRecords host files))).filter fun x =>
          decide (c.fileOf x.direction = f) && (x.cached stamp).fits).flatMap fun x =>
            (x.cached stamp).record.bytes .big) := by
  have hrun := (replayFiles_planned c stamp accepts host writers files).sent
  rw [hrun]
  exact foldl_emit c stamp accepts ⟨∅, 0⟩ writers (c.plan (filesRecords host files))

theorem fileOf_eq_iff (c : Settings) (direction direction' : Direction) :
    c.fileOf direction = c.fileOf direction' ↔ c.socket direction = c.socket direction' := by
  unfold Settings.fileOf Settings.socket
  by_cases hsame : c.uplinkIface = c.downlink
  · simp [hsame]
  · cases direction <;> cases direction' <;> simp [hsame]

theorem setupPcapCaching_get (c : Settings) (cacheEnabled : Bool) (opens : CacheFile → Bool) (direction : Direction) :
    (c.setupPcapCaching cacheEnabled opens).get (c.fileOf direction) =
      if cacheEnabled && opens (c.fileOf direction) then some writePcapGlobalHeader else none := by
  unfold Settings.setupPcapCaching Settings.fileOf
  by_cases hsame : c.uplinkIface = c.downlink
  · simp [hsame, Writers.get]
  · cases direction <;> simp [hsame, Writers.get]

theorem sorterRecords_cached (stamp : ReplayRecord → Nat × Nat) {xs : List Sending}
    (hfits : ∀ x ∈ xs, (x.cached stamp).fits = true) :
    sorterRecords .little (writePcapGlobalHeader ++ xs.flatMap fun x => (x.cached stamp).record.bytes .big) =
      some (.big, xs.map fun x => (x.cached stamp).record) := by
  have hrecords : ∀ p ∈ xs.map (Sending.cached stamp), p.record.Fits := by
    intro p hp
    obtain ⟨x, hx, rfl⟩ := List.mem_map.mp hp
    have hwrite := writePcapPacket_eq [] (x.cached stamp)
    rw [if_pos (hfits x hx)] at hwrite
    exact (writePcapPacket_eq_some hwrite).1
  obtain ⟨file, hfile⟩ := cacheFile_of_fits hrecords
  obtain ⟨-, hbytes⟩ := cacheFile_eq_some hfile
  rw [List.map_map, List.flatMap_map] at hbytes
  have hread := sorterRecords_cache hfile
  rw [List.map_map, hbytes] at hread
  exact hread

/-- **The cache mirrors the wire**, for any files and any sends that fail. The sockets are given the frames of the plan
that they accept. A file that was opened is a pcap file of those frames that went to the socket of its interface, in
the same order and with the two integers that `_write_pcap_packet` makes of the time, but for the ones whose time or
length does not fit a record; a file that was not opened stays away. -/
theorem replayFiles_cached (c : Settings) (stamp : ReplayRecord → Nat × Nat) (accepts : Nat → Bool) (host : Endian)
    (cacheEnabled : Bool) (opens : CacheFile → Bool) (files : List (Option Bytes)) :
    let s := (c.replayFiles stamp accepts host ⟨∅, 0⟩ (c.setupPcapCaching cacheEnabled opens) files).1
    let accepted := acceptedOf accepts (c.plan (filesRecords host files))
    s.sent = accepted.map (fun x => (c.socket x.direction, x.frame)) ∧
      ∀ direction,
        if cacheEnabled && opens (c.fileOf direction) then
          ∃ file, s.writers.get (c.fileOf direction) = some file ∧
            sorterRecords .little file = some (.big, (accepted.filter fun x =>
              decide (c.socket x.direction = c.socket direction) && (x.cached stamp).fits).map fun x =>
                (x.cached stamp).record)
        else s.writers.get (c.fileOf direction) = none := by
  intro s accepted
  obtain ⟨hsent, hget⟩ := replayFiles_emitted c stamp accepts host (c.setupPcapCaching cacheEnabled opens) files
  refine ⟨hsent, fun direction => ?_⟩
  have hfile := hget (c.fileOf direction)
  rw [setupPcapCaching_get] at hfile
  rw [hfile]
  split_ifs with hopen
  · refine ⟨_, rfl, ?_⟩
    simp only [fileOf_eq_iff]
    exact sorterRecords_cached stamp fun x hx => (Bool.and_eq_true_iff.mp (List.mem_filter.mp hx).2).2
  · rfl

end SocketServer.Replay
