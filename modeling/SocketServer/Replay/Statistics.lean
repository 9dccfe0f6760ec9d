import SocketServer.Replay.FastPath

/-!
# The statistics of a replay (`replay_files`) where sends may fail

`send_packet` catches what a send raises and returns without counting the packet, and `replay_file` counts every call of
`send_packet` that returns. `packets_count` so takes in the packets that were refused, the counters of the directions do
not.

* `tally_replayFileWith` : what the counters say of the sends of a run;
* `replayFileWith_accepted` : where all sends succeed, this is the replay of `FastPath`;
* `replayFiles_stats_iff` : the statistics agree exactly when every send was accepted and every cache write succeeded.
-/

namespace SocketServer.Replay

open Bytes Inet Capture

/-! ### Sends that may fail -/

/-- A send: whether the socket accepted the frame, and whether its packet fits the cache file that is open. -/
structure Attempt where
  accepted : Bool
  cached : Bool
  deriving DecidableEq, Repr

/-- A replay with its sends; `sent` is what the sockets accepted. -/
structure SendState extends ReplayState where
  attempts : List Attempt

section

variable (c : Settings) (stamp : ReplayRecord → Nat × Nat) (accepts : Nat → Bool)

/-- The rest of `send_packet`, with the number of the send deciding whether the socket accepts the frame. A send that
raises leaves the counters and the cache. -/
def Settings.transmitWith (s : SendState) (r : ReplayRecord) (direction : Direction) (pkt : Bytes) : SendState :=
  let accepted := accepts s.attempts.length
  let cached := (c.cache direction ⟨pkt, (stamp r).1, (stamp r).2⟩ s.writers).isSome
  { toReplayState := if accepted then c.transmit stamp s.toReplayState r direction pkt else s.toReplayState
    attempts := s.attempts ++ [⟨accepted, cached⟩] }

/-- `send_packet`, and whether it returns. -/
def Settings.sendPacketWith (s : SendState) (r : ReplayRecord) (direction : Direction) (key : Option FiveTuple) :
    SendState × Bool :=
  let flow := key.bind s.flows.flowTable.lookup
  let s := { s with flows := s.flows.setEntry key (c.modifyPacket r.pktData flow direction).2 }
  match c.sentPacket r.pktData flow direction with
  | none => (s, false)
  | some pkt => (c.transmitWith stamp accepts s r direction pkt, true)

/-- The part of a turn behind the parsers. -/
def Settings.dispatchWith (s : SendState) (r : ReplayRecord) (eth : Ethernet) (ip : Ip) : SendState × Bool :=
  if c.directionless && c.noTupleModification && !c.forceBuildFlow then
    c.sendPacketWith stamp accepts s r .uplink none
  else
    let transport := parseTransport ip.proto ip.payload
    let key := getFiveTuple eth ip.src ip.dst transport.sport transport.dport ip.proto
    let (direction, flows) := c.hints.getDirection s.flows key ip.proto transport.flags
    c.sendPacketWith stamp accepts { s with flows := flows } r direction (some key)

/-- One turn of the loop of `replay_file`, with `packets_count`. -/
def Settings.replayPacketWith (s : SendState × Nat) (r : ReplayRecord) : SendState × Nat :=
  match parsePacket r.pktData with
  | none => s
  | some (eth, ip) =>
    let (s', returned) := c.dispatchWith stamp accepts s.1 r eth ip
    (s', if returned then s.2 + 1 else s.2)

/-- `replay_file` for a file with these bytes. -/
def Settings.replayFileWith (host : Endian) (s : SendState) (file : Bytes) : SendState × Except ReplayError Nat :=
  let read := replayRecords host file
  let (s, packetsCount) := read.1.foldl (c.replayPacketWith stamp accepts) (s, 0)
  (s, read.2.elim (.ok packetsCount) .error)

/-! ### All files (`replay_files`) -/

/-- The numbers of `stats` that are counters. -/
structure Stats where
  totalFiles : Nat
  totalPackets : Nat
  totalBytes : Nat
  uplinkPackets : Nat
  uplinkBytes : Nat
  downlinkPackets : Nat
  downlinkBytes : Nat
  flowCount : Nat
  deriving DecidableEq, Repr

/-- What `replay_files` raises: a file that does not exist, or what `replay_file` raises. -/
inductive FilesError
  | missing
  | replay (e : ReplayError)
  deriving DecidableEq, Repr

/-- After `reset_stats`, `_setup_pcap_caching` and `_setup_sockets`; `flow_table` stays. -/
def startReplay (flows : Flows) (writers : Writers) : SendState :=
  { flows := { flows with flowCount := 0 }
    writers := writers
    sent := []
    uplinkPackets := 0
    uplinkBytes := 0
    downlinkPackets := 0
    downlinkBytes := 0
    totalBytes := 0
    attempts := [] }

/-- The loop over the files, with `total_files` and `total_packets`; a file that does not exist is `none`. -/
def Settings.replayEach (host : Endian) (s : SendState) (totalFiles totalPackets : Nat) :
    List (Option Bytes) → SendState × Except FilesError (Nat × Nat)
  | [] => (s, .ok (totalFiles, totalPackets))
  | none :: _ => (s, .error .missing)
  | some file :: files =>
    match c.replayFileWith stamp accepts host s file with
    | (s, .ok packets) => Settings.replayEach host s (totalFiles + 1) (totalPackets + packets) files
    | (s, .error e) => (s, .error (.replay e))

/-- `replay_files`: what the sockets met and the statistics it returns. -/
def Settings.replayFiles (host : Endian) (flows : Flows) (writers : Writers) (files : List (Option Bytes)) :
    SendState × Except FilesError Stats :=
  match c.replayEach stamp accepts host (startReplay flows writers) 0 0 files with
  | (s, .ok (totalFiles, totalPackets)) =>
    (s, .ok ⟨totalFiles, totalPackets, s.totalBytes, s.uplinkPackets, s.uplinkBytes, s.downlinkPackets,
      s.downlinkBytes, s.flows.flowCount⟩)
  | (s, .error e) => (s, .error e)

/-! ### What the counters say -/

/-- The counters of the directions count the sends that were accepted and cached, and the bytes add up. -/
structure Tally (s : SendState) : Prop where
  counted : s.uplinkPackets + s.downlinkPackets = s.attempts.countP fun a => a.accepted && a.cached
  accepted : s.sent.length = s.attempts.countP Attempt.accepted
  bytes : s.totalBytes = s.uplinkBytes + s.downlinkBytes
  pattern : s.attempts.map Attempt.accepted = (List.range s.attempts.length).map accepts

theorem count_counts (s : ReplayState) (direction : Direction) (n : Nat) :
    (s.count direction n).sent = s.sent ∧
      (s.count direction n).uplinkPackets + (s.count direction n).downlinkPackets =
        s.uplinkPackets + s.downlinkPackets + 1 ∧
      (s.totalBytes = s.uplinkBytes + s.downlinkBytes →
        (s.count direction n).totalBytes = (s.count direction n).uplinkBytes + (s.count direction n).downlinkBytes) := by
  cases direction with
  | uplink =>
    refine ⟨rfl, ?_, fun h => ?_⟩
    all_goals
      simp only [ReplayState.count]
      omega
  | downlink =>
    refine ⟨rfl, ?_, fun h => ?_⟩
    all_goals
      simp only [ReplayState.count]
      omega

/-- A send that is accepted: the counters of its direction count it if it is cached. -/
theorem transmit_counts (s : ReplayState) (r : ReplayRecord) (direction : Direction) (pkt : Bytes) :
    (c.transmit stamp s r direction pkt).sent.length = s.sent.length + 1 ∧
      (c.transmit stamp s r direction pkt).uplinkPackets + (c.transmit stamp s r direction pkt).downlinkPackets =
        s.uplinkPackets + s.downlinkPackets +
          (if (c.cache direction ⟨pkt, (stamp r).1, (stamp r).2⟩ s.writers).isSome then 1 else 0) ∧
      (s.totalBytes = s.uplinkBytes + s.downlinkBytes →
        (c.transmit stamp s r direction pkt).totalBytes =
          (c.transmit stamp s r direction pkt).uplinkBytes + (c.transmit stamp s r direction pkt).downlinkBytes) := by
  unfold Settings.transmit
  dsimp only
  cases c.cache direction ⟨pkt, (stamp r).1, (stamp r).2⟩ s.writers with
  | none => exact ⟨List.length_append, rfl, id⟩
  | some w =>
    obtain ⟨hsent, hpackets, hbytes⟩ := count_counts
      { s with sent := s.sent ++ [(c.socket direction, pkt)], writers := w } direction r.origLen
    exact ⟨(congrArg List.length hsent).trans List.length_append, hpackets, hbytes⟩

variable {accepts}

theorem Tally.transmitWith {s : SendState} (h : Tally accepts s) (r : ReplayRecord) (direction : Direction)
    (pkt : Bytes) : Tally accepts (c.transmitWith stamp accepts s r direction pkt) := by
  have hpattern : (s.attempts.map Attempt.accepted ++ [accepts s.attempts.length]) =
      (List.range (s.attempts.length + 1)).map accepts := by
    rw [List.range_succ, List.map_append, h.pattern]
    rfl
  have hcounted := h.counted
  have haccepted := h.accepted
  unfold Settings.transmitWith
  cases hsend : accepts s.attempts.length with
  | false =>
    rw [hsend] at hpattern
    refine ⟨?_, ?_, h.bytes, ?_⟩
    · simpa [List.countP_append] using hcounted
    · simpa [List.countP_append] using haccepted
    · simpa using hpattern
  | true =>
    rw [hsend] at hpattern
    obtain ⟨hsent, hpackets, hbytes⟩ := transmit_counts c stamp s.toReplayState r direction pkt
    refine ⟨?_, ?_, hbytes h.bytes, ?_⟩
    · simp only [if_true, List.countP_append, List.countP_singleton, Bool.true_and, hpackets, hcounted]
    · simp only [if_true, List.countP_append, List.countP_singleton, hsent, haccepted]
    · simpa using hpattern

theorem Tally.flows {s : SendState} (h : Tally accepts s) (flows : Flows) : Tally accepts { s with flows := flows } :=
  ⟨h.counted, h.accepted, h.bytes, h.pattern⟩

theorem Tally.sendPacketWith {s : SendState} (h : Tally accepts s) (r : ReplayRecord) (direction : Direction)
    (key : Option FiveTuple) :
    Tally accepts (c.sendPacketWith stamp accepts s r direction key).1 ∧
      (c.sendPacketWith stamp accepts s r direction key).1.attempts.length =
        s.attempts.length + (c.sendPacketWith stamp accepts s r direction key).2.toNat := by
  unfold Settings.sendPacketWith
  dsimp only
  cases c.sentPacket r.pktData (key.bind s.flows.flowTable.lookup) direction with
  | none => exact ⟨h.flows _, rfl⟩
  | some pkt => exact ⟨(h.flows _).transmitWith c stamp r direction pkt, List.length_append⟩

theorem Tally.dispatchWith {s : SendState} (h : Tally accepts s) (r : ReplayRecord) (eth : Ethernet) (ip : Ip) :
    Tally accepts (c.dispatchWith stamp accepts s r eth ip).1 ∧
      (c.dispatchWith stamp accepts s r eth ip).1.attempts.length =
        s.attempts.length + (c.dispatchWith stamp accepts s r eth ip).2.toNat := by
  unfold Settings.dispatchWith
  split_ifs
  · exact h.sendPacketWith c stamp r _ _
  · exact (h.flows _).sendPacketWith c stamp r _ _

theorem Tally.replayPacketWith {s : SendState × Nat} (h : Tally accepts s.1) (r : ReplayRecord) :
    Tally accepts (c.replayPacketWith stamp accepts s r).1 ∧
      (c.replayPacketWith stamp accepts s r).1.attempts.length + s.2 =
        s.1.attempts.length + (c.replayPacketWith stamp accepts s r).2 := by
  unfold Settings.replayPacketWith
  rcases parsePacket r.pktData with _ | ⟨eth, ip⟩
  · exact ⟨h, rfl⟩
  · obtain ⟨htally, hlen⟩ := h.dispatchWith c stamp r eth ip
    refine ⟨htally, ?_⟩
    dsimp only
    rw [hlen]
    cases (c.dispatchWith stamp accepts s.1 r eth ip).2 with
    | false => rfl
    | true => exact Nat.add_right_comm ..

theorem tally_replayFileWith {s : SendState} (h : Tally accepts s) (host : Endian) (file : Bytes) :
    Tally accepts (c.replayFileWith stamp accepts host s file).1 ∧
      ∀ n, (c.replayFileWith stamp accepts host s file).2 = .ok n →
        (c.replayFileWith stamp accepts host s file).1.attempts.length = s.attempts.length + n := by
  have hloop (records : List ReplayRecord) (x : SendState × Nat) (hx : Tally accepts x.1) :
      Tally accepts (records.foldl (c.replayPacketWith stamp accepts) x).1 ∧
        (records.foldl (c.replayPacketWith stamp accepts) x).1.attempts.length + x.2 =
          x.1.attempts.length + (records.foldl (c.replayPacketWith stamp accepts) x).2 := by
    induction records generalizing x with
    | nil => exact ⟨hx, rfl⟩
    | cons r records ih =>
      obtain ⟨hturn, hlen⟩ := hx.replayPacketWith c stamp r
      obtain ⟨hrest, hlen'⟩ := ih _ hturn
      refine ⟨hrest, ?_⟩
      rw [List.foldl_cons]
      omega
  obtain ⟨htally, hlen⟩ := hloop (replayRecords host file).1 (s, 0) h
  refine ⟨htally, fun n hn => ?_⟩
  unfold Settings.replayFileWith at hn ⊢
  dsimp only at hn ⊢
  cases hend : (replayRecords host file).2 with
  | some e =>
    rw [hend] at hn
    cases hn
  | none =>
    rw [hend] at hn
    obtain rfl := Except.ok.inj hn
    exact hlen

theorem tally_replayEach {s : SendState} (h : Tally accepts s) (host : Endian) (files : List (Option Bytes))
    {totalFiles totalPackets : Nat} (htotal : totalPackets = s.attempts.length) {s' : SendState} {n m : Nat}
    (hrun : c.replayEach stamp accepts host s totalFiles totalPackets files = (s', .ok (n, m))) :
    Tally accepts s' ∧ m = s'.attempts.length := by
  induction files generalizing s totalFiles totalPackets with
  | nil =>
    obtain ⟨rfl, hok⟩ := Prod.mk.inj hrun
    obtain ⟨-, rfl⟩ := Prod.mk.inj (Except.ok.inj hok)
    exact ⟨h, htotal⟩
  | cons file files ih =>
    cases file with
    | none => cases (Prod.mk.inj hrun).2
    | some file =>
      obtain ⟨htally, hlen⟩ := tally_replayFileWith c stamp h host file
      rw [Settings.replayEach] at hrun
      rcases hfile : c.replayFileWith stamp accepts host s file with ⟨s₁, e | packets⟩
      · rw [hfile] at hrun
        cases (Prod.mk.inj hrun).2
      · rw [hfile] at hrun htally hlen
        have hpackets := hlen packets rfl
        exact ih htally (by omega) hrun

end

/-! ### Sends that all succeed -/

section

variable (c : Settings) (stamp : ReplayRecord → Nat × Nat) {accepts : Nat → Bool} (h : ∀ n, accepts n = true)

include h

theorem sendPacketWith_accepted (s : SendState) (r : ReplayRecord) (direction : Direction) (key : Option FiveTuple) :
    (c.sendPacketWith stamp accepts s r direction key).1.toReplayState =
        (c.sendPacket stamp s.toReplayState r direction key).1 ∧
      (c.sendPacketWith stamp accepts s r direction key).2 = (c.sendPacket stamp s.toReplayState r direction key).2 := by
  unfold Settings.sendPacketWith Settings.sendPacket Settings.transmitWith
  dsimp only
  cases c.sentPacket r.pktData (key.bind s.flows.flowTable.lookup) direction with
  | none => exact ⟨rfl, rfl⟩
  | some pkt => exact ⟨if_pos (h _), rfl⟩

theorem dispatchWith_accepted (s : SendState) (r : ReplayRecord) (eth : Ethernet) (ip : Ip) :
    (c.dispatchWith stamp accepts s r eth ip).1.toReplayState = (c.dispatch stamp s.toReplayState r eth ip).1 ∧
      (c.dispatchWith stamp accepts s r eth ip).2 = (c.dispatch stamp s.toReplayState r eth ip).2 := by
  unfold Settings.dispatchWith Settings.dispatch
  split_ifs
  · exact sendPacketWith_accepted c stamp h s r _ _
  · exact sendPacketWith_accepted c stamp h { s with flows := _ } r _ _

theorem replayPacketWith_accepted {s : SendState × Nat} {t : ReplayState × Nat} (hsame : s.1.toReplayState = t.1)
    (hcount : s.2 = t.2) (r : ReplayRecord) :
    (c.replayPacketWith stamp accepts s r).1.toReplayState = (c.replayPacket stamp t r).1 ∧
      (c.replayPacketWith stamp accepts s r).2 = (c.replayPacket stamp t r).2 := by
  unfold Settings.replayPacketWith Settings.replayPacket
  rcases parsePacket r.pktData with _ | ⟨eth, ip⟩
  · exact ⟨hsame, hcount⟩
  · obtain ⟨hstate, hreturned⟩ := dispatchWith_accepted c stamp h s.1 r eth ip
    rw [hsame] at hstate hreturned
    exact ⟨hstate, by simp only [hreturned, hcount]⟩

/-- **Sends that all succeed**: the replay of a file as in `FastPath`. -/
theorem replayFileWith_accepted (host : Endian) (s : SendState) (file : Bytes) :
    (c.replayFileWith stamp accepts host s file).1.toReplayState =
        (c.replayFile stamp host s.toReplayState file).1 ∧
      (c.replayFileWith stamp accepts host s file).2 = (c.replayFile stamp host s.toReplayState file).2 := by
  have hloop := List.foldl_rel (l := (replayRecords host file).1) (a := (s, 0)) (b := (s.toReplayState, 0))
    (f := c.replayPacketWith stamp accepts) (g := c.replayPacket stamp)
    (r := fun (x : SendState × Nat) (y : ReplayState × Nat) => x.1.toReplayState = y.1 ∧ x.2 = y.2) ⟨rfl, rfl⟩
    fun r _ _ _ hr => replayPacketWith_accepted c stamp h hr.1 hr.2 r
  refine ⟨hloop.1, ?_⟩
  unfold Settings.replayFileWith Settings.replayFile Settings.replayLoop
  simp only [hloop.2]

end

/-! ### The statistics -/

/-- The counters of the directions agree with the packets, with the frames that the sockets accepted, and in bytes. -/
structure Stats.Agree (stats : Stats) (accepted : Nat) : Prop where
  total : stats.totalPackets = stats.uplinkPackets + stats.downlinkPackets
  accepted : stats.uplinkPackets + stats.downlinkPackets = accepted
  bytes : stats.totalBytes = stats.uplinkBytes + stats.downlinkBytes

/-- **Statistics.** For any files and any sends that fail, the statistics of a replay that returns agree exactly when
every send was accepted and every cache write succeeded. -/
theorem replayFiles_stats_iff (c : Settings) (stamp : ReplayRecord → Nat × Nat) (accepts : Nat → Bool) (host : Endian)
    (flows : Flows) (writers : Writers) (files : List (Option Bytes)) {s : SendState} {stats : Stats}
    (hrun : c.replayFiles stamp accepts host flows writers files = (s, .ok stats)) :
    (stats.Agree s.sent.length ↔ ∀ a ∈ s.attempts, a.accepted = true ∧ a.cached = true) ∧
      s.attempts.map Attempt.accepted = (List.range s.attempts.length).map accepts ∧
      stats.totalBytes = stats.uplinkBytes + stats.downlinkBytes := by
  have hstart : Tally accepts (startReplay flows writers) := ⟨rfl, rfl, rfl, rfl⟩
  rw [Settings.replayFiles] at hrun
  rcases heach : c.replayEach stamp accepts host (startReplay flows writers) 0 0 files with ⟨s', e | ⟨n, m⟩⟩
  · rw [heach] at hrun
    cases (Prod.mk.inj hrun).2
  · rw [heach] at hrun
    obtain ⟨rfl, hok⟩ := Prod.mk.inj hrun
    obtain rfl := Except.ok.inj hok
    obtain ⟨htally, rfl⟩ := tally_replayEach c stamp hstart host files rfl heach
    obtain ⟨hcounted, haccepted, hbytes, hpattern⟩ := htally
    refine ⟨⟨fun hagree => ?_, fun hall => ⟨?_, ?_, hbytes⟩⟩, hpattern, hbytes⟩
    · have htotal : s'.attempts.countP (fun a => a.accepted && a.cached) = s'.attempts.length :=
        hcounted.symm.trans hagree.total.symm
      intro a ha
      exact Bool.and_eq_true_iff.mp (List.countP_eq_length.mp htotal a ha)
    all_goals
      have hboth : s'.attempts.countP (fun a => a.accepted && a.cached) = s'.attempts.length :=
        List.countP_eq_length.mpr fun a ha => Bool.and_eq_true_iff.mpr (hall a ha)
      have hsent : s'.attempts.countP Attempt.accepted = s'.attempts.length :=
        List.countP_eq_length.mpr fun a ha => (hall a ha).1
      dsimp only
      omega

theorem replayFiles_stats_accepted :
    ∃ s stats, oneWire.replayFiles (fun r => (r.tsSec, r.tsFrac)) (fun _ => true) .little ⟨∅, 0⟩ ⟨none, none, none⟩
        [some synFile] = (s, .ok stats) ∧ stats.Agree s.sent.length :=
  ⟨_, _, rfl, (replayFiles_stats_iff oneWire (fun r => (r.tsSec, r.tsFrac)) (fun _ => true) .little ⟨∅, 0⟩
    ⟨none, none, none⟩ [some synFile] rfl).1.mpr (by decide +kernel)⟩

/-- No cache, and the frame of `synFile` refused: one packet is in the total and in no direction. -/
theorem replayFiles_refused :
    ∃ s stats, oneWire.replayFiles (fun r => (r.tsSec, r.tsFrac)) (fun _ => false) .little ⟨∅, 0⟩ ⟨none, none, none⟩
        [some synFile] = (s, .ok stats) ∧ stats.totalPackets = 1 ∧ ¬ stats.Agree s.sent.length := by
  refine ⟨_, _, rfl, ?_, ?_⟩
  · decide +kernel
  · rintro ⟨htotal, -, -⟩
    exact absurd htotal (by decide +kernel)

end SocketServer.Replay
