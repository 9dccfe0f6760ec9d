import SocketServer.Capture.RoundTrip

/-!
# The clocks of a capture (`_decode_ts_ns`)

The kernel may stamp a frame with a hardware clock and with a software clock; where it does neither, the capture reads
`time.monotonic_ns()`. The choice is made for each frame by itself, and `_sort_pcap_by_timestamp` compares the numbers.

* `decodeTsNs_reading` : which clock the time of a frame is read from;
* `sort_stampedFile_iff` : where no clock runs backwards, sorting keeps the order of the frames exactly when no frame
  comes after one that another clock gave a later time.
-/

namespace SocketServer.Capture

open Bytes

/-! ### The code -/

def solSocket : Nat := 1

def scmTimestamping : Nat := 37

def scmTimestampingSize : Nat := 48

def soTimestampns : Nat := 35

/-- `_ts_mode`. -/
inductive TsMode
  | hwTs
  | swTs
  | nsTs
  | userspace
  deriving DecidableEq, Repr

def Cmsg.isTimestamping (c : Cmsg) : Bool := c.level == solSocket && c.type == scmTimestamping

def Cmsg.isTimestampns (c : Cmsg) : Bool := c.level == solSocket && c.type == soTimestampns

section

variable (host : Endian)

/-- `struct.unpack("@l", s)`, where a `long` has 64 bits. -/
def unpackLong (s : Bytes) : Int :=
  if decode host s < 2 ^ 63 then decode host s else (decode host s : Int) - 2 ^ 64

/-- The `timespec` at `i`. -/
def unpackTimespec (s : Bytes) (i : Nat) : Int × Int :=
  (unpackLong host (slice s i (i + 8)), unpackLong host (slice s (i + 8) (i + 16)))

/-- `sec * 1_000_000_000 + nsec`. -/
def timespecNs (t : Int × Int) : Int := t.1 * 1000000000 + t.2

/-- The first control message of a kind that the mode looks for. -/
def decodeTsNs (mode : TsMode) (ancdata : List Cmsg) (monotonicNs : Int) : Option Int :=
  if mode = .hwTs ∨ mode = .swTs then
    match ancdata.find? Cmsg.isTimestamping with
    | none => some monotonicNs
    | some cmsg =>
      if cmsg.data.length < scmTimestampingSize then some monotonicNs
      else
        let hw := unpackTimespec host cmsg.data 0
        let sw := unpackTimespec host cmsg.data 16
        if mode = .hwTs ∧ (hw.1 ≠ 0 ∨ hw.2 ≠ 0) then some (timespecNs hw)
        else if sw.1 ≠ 0 ∨ sw.2 ≠ 0 then some (timespecNs sw)
        else some monotonicNs
  else if mode = .nsTs then
    match ancdata.find? Cmsg.isTimestampns with
    | none => some monotonicNs
    | some cmsg =>
      -- `struct.unpack` of a message of another length raises
      if cmsg.data.length = 16 then some (timespecNs (unpackTimespec host cmsg.data 0)) else none
  else some monotonicNs

/-- What `recvmsg` returns, and what `time.monotonic_ns()` returns behind it. -/
structure Reception where
  data : Bytes
  ancdata : List Cmsg
  monotonicNs : Nat
  deriving DecidableEq, Repr

/-- A turn of the receive loop. `none` is an exception, of `_decode_ts_ns` or of `struct.pack`, which refuses negative
numbers. -/
def Reception.write (mode : TsMode) (f : Bytes) (r : Reception) : Option Bytes := do
  let tsNs ← decodeTsNs host mode r.ancdata r.monotonicNs
  if tsNs < 0 then none else writePacket f (restoreVlan host r.data r.ancdata) tsNs.toNat

/-- The file after these receptions. -/
def stampedFile (mode : TsMode) (receptions : List Reception) : Option Bytes :=
  receptions.foldlM (Reception.write host mode) globalHeader

/-! ### The clocks -/

inductive Clock
  | hardware
  | software
  | monotonic
  deriving DecidableEq, Repr

/-- A time that is not zero. -/
def timespecGiven (t : Int × Int) : Option Int := if t.1 ≠ 0 ∨ t.2 ≠ 0 then some (timespecNs t) else none

/-- What the kernel says with a frame about the `i`-th clock of `SCM_TIMESTAMPING`. -/
def timestamping (ancdata : List Cmsg) (i : Nat) : Option Int :=
  ((ancdata.find? Cmsg.isTimestamping).filter fun cmsg => decide (scmTimestampingSize ≤ cmsg.data.length)).bind
    fun cmsg => timespecGiven (unpackTimespec host cmsg.data (16 * i))

/-- What it says in `SO_TIMESTAMPNS`. -/
def timestampns (ancdata : List Cmsg) : Option Int :=
  ((ancdata.find? Cmsg.isTimestampns).filter fun cmsg => decide (cmsg.data.length = 16)).map
    fun cmsg => timespecNs (unpackTimespec host cmsg.data 0)

/-- The reading of a clock that comes with a frame, if there is one. -/
def Reception.reading (mode : TsMode) (r : Reception) : Clock → Option Int
  | .hardware => timestamping host r.ancdata 0
  | .software => if mode = .nsTs then timestampns host r.ancdata else timestamping host r.ancdata 1
  | .monotonic => some r.monotonicNs

/-- The first clock with a reading, of those the mode makes use of. -/
def Reception.clock (mode : TsMode) (r : Reception) : Clock :=
  if mode = .hwTs ∧ (r.reading host mode .hardware).isSome then .hardware
  else if mode ≠ .userspace ∧ (r.reading host mode .software).isSome then .software
  else .monotonic

/-- Clock `c` at frame `r` is not later than clock `c'` at frame `r'`. -/
def NotLater (mode : TsMode) (c c' : Clock) (r r' : Reception) : Prop :=
  ∀ a b, r.reading host mode c = some a → r'.reading host mode c' = some b → a ≤ b

/-- No clock runs backwards from frame to frame. -/
def ClocksRun (mode : TsMode) (receptions : List Reception) : Prop :=
  ∀ c, receptions.Pairwise (NotLater host mode c c)

/-- No frame comes after one that another clock gave a later time. -/
def ClocksAgree (mode : TsMode) (receptions : List Reception) : Prop :=
  receptions.Pairwise fun r r' =>
    r.clock host mode ≠ r'.clock host mode → NotLater host mode (r.clock host mode) (r'.clock host mode) r r'

instance (mode : TsMode) (c c' : Clock) (r r' : Reception) : Decidable (NotLater host mode c c' r r') :=
  decidable_of_iff
    ((r.reading host mode c).all (fun a => (r'.reading host mode c').all fun b => decide (a ≤ b)) = true)
    (by simp only [NotLater, Option.all_eq_true, decide_eq_true_eq]; grind)

instance (mode : TsMode) (receptions : List Reception) : Decidable (ClocksRun host mode receptions) :=
  decidable_of_iff
    (receptions.Pairwise (NotLater host mode .hardware .hardware) ∧
      receptions.Pairwise (NotLater host mode .software .software) ∧
      receptions.Pairwise (NotLater host mode .monotonic .monotonic))
    ⟨fun h c => by cases c with
      | hardware => exact h.1
      | software => exact h.2.1
      | monotonic => exact h.2.2, fun h => ⟨h .hardware, h .software, h .monotonic⟩⟩

/-! ### The time of a frame -/

/-- With `SO_TIMESTAMPING`: the hardware clock if the mode asks for it, the software clock, the monotonic clock. -/
theorem decodeTsNs_timestamping {mode : TsMode} (h : mode = .hwTs ∨ mode = .swTs) (ancdata : List Cmsg)
    (monotonicNs : Int) :
    decodeTsNs host mode ancdata monotonicNs =
      some (((if mode = .hwTs then timestamping host ancdata 0 else none).or (timestamping host ancdata 1)).getD
        monotonicNs) := by
  rw [decodeTsNs, if_pos h, timestamping, timestamping]
  cases ancdata.find? Cmsg.isTimestamping with
  | none => simp
  | some cmsg =>
    dsimp only
    by_cases hlong : scmTimestampingSize ≤ cmsg.data.length
    · rw [if_neg (by omega), Option.filter_some, decide_eq_true hlong, if_pos rfl, Option.bind_some, Option.bind_some,
        timespecGiven, timespecGiven]
      split_ifs <;> first | rfl | grind
    · rw [if_pos (by omega), Option.filter_some, decide_eq_false hlong, if_neg Bool.false_ne_true]
      split_ifs <;> rfl

theorem decodeTsNs_timestampns {ancdata : List Cmsg} {monotonicNs tsNs : Int}
    (h : decodeTsNs host .nsTs ancdata monotonicNs = some tsNs) :
    tsNs = (timestampns host ancdata).getD monotonicNs := by
  rw [decodeTsNs, if_neg (by decide), if_pos rfl] at h
  rw [timestampns]
  cases hfind : ancdata.find? Cmsg.isTimestampns with
  | none =>
    rw [hfind] at h
    exact (Option.some.inj h).symm
  | some cmsg =>
    rw [hfind] at h
    dsimp only at h
    split_ifs at h with hlen
    rw [Option.filter_some, decide_eq_true hlen]
    exact (Option.some.inj h).symm

/-- **The time of a frame** is the reading of its clock. -/
theorem decodeTsNs_reading {mode : TsMode} {r : Reception} {tsNs : Int}
    (h : decodeTsNs host mode r.ancdata r.monotonicNs = some tsNs) :
    r.reading host mode (r.clock host mode) = some tsNs := by
  cases mode with
  | hwTs =>
    rw [decodeTsNs_timestamping host (.inl rfl), if_pos rfl] at h
    obtain rfl := Option.some.inj h
    unfold Reception.clock
    cases hhw : timestamping host r.ancdata 0 with
    | some ns => simp [Reception.reading, hhw]
    | none =>
      cases hsw : timestamping host r.ancdata 1 with
      | some ns => simp [Reception.reading, hhw, hsw]
      | none => simp [Reception.reading, hhw, hsw]
  | swTs =>
    rw [decodeTsNs_timestamping host (.inr rfl), if_neg (by decide)] at h
    obtain rfl := Option.some.inj h
    unfold Reception.clock
    cases hsw : timestamping host r.ancdata 1 with
    | some ns => simp [Reception.reading, hsw]
    | none => simp [Reception.reading, hsw]
  | nsTs =>
    obtain rfl := decodeTsNs_timestampns host h
    unfold Reception.clock
    cases hns : timestampns host r.ancdata with
    | some ns => simp [Reception.reading, hns]
    | none => simp [Reception.reading, hns]
  | userspace =>
    obtain rfl := Option.some.inj h
    rfl

end

/-! ### The file -/

section

variable (mode : TsMode)

/-- The frame and the time that are written. -/
def Reception.sent (r : Reception) : Sent :=
  ⟨restoreVlan .little r.data r.ancdata, ((decodeTsNs .little mode r.ancdata r.monotonicNs).getD 0).toNat⟩

theorem writePacket_eq_some {f f' : Bytes} {s : Sent} (h : writePacket f s.frame s.tsNs = some f') :
    s.record.Fits ∧ f' = f ++ s.record.bytes .little := by
  have hfits : s.record.Fits := by
    simp only [writePacket, packRecord, pack] at h
    split_ifs at h with hsec hfrac hlen
    · exact ⟨hsec, hfrac, hlen⟩
    all_goals cases h
  have hpack : packRecord .little (s.tsNs / 1000000000) (s.tsNs % 1000000000) s.frame = some (s.record.bytes .little) :=
    packRecord_of_fits .little hfits
  rw [writePacket, hpack] at h
  exact ⟨hfits, (Option.some.inj h).symm⟩

theorem Reception.write_eq_some {r : Reception} {f f' : Bytes} (h : r.write .little mode f = some f') :
    decodeTsNs .little mode r.ancdata r.monotonicNs = some ((r.sent mode).tsNs : Int) ∧ (r.sent mode).record.Fits ∧
      f' = f ++ (r.sent mode).record.bytes .little := by
  unfold Reception.write at h
  obtain ⟨tsNs, hdecode, h⟩ := Option.bind_eq_some_iff.mp h
  split_ifs at h with hneg
  have hsent : r.sent mode = ⟨restoreVlan .little r.data r.ancdata, tsNs.toNat⟩ := by
    rw [Reception.sent, hdecode, Option.getD_some]
  have htime : (tsNs.toNat : Int) = tsNs := Int.toNat_of_nonneg (by omega)
  rw [hsent]
  exact ⟨by rw [hdecode, htime], writePacket_eq_some h⟩

theorem stampedFile_eq_some {receptions : List Reception} {file : Bytes}
    (h : stampedFile .little mode receptions = some file) :
    (∀ r ∈ receptions, r.reading .little mode (r.clock .little mode) = some ((r.sent mode).tsNs : Int)) ∧
      (∀ r ∈ receptions.map fun r => (r.sent mode).record, r.Fits) ∧
      file = pcapFile (receptions.map fun r => (r.sent mode).record) := by
  rw [stampedFile] at h
  rw [pcapFile]
  generalize globalHeader = f at h ⊢
  induction receptions generalizing f with
  | nil =>
    obtain rfl := Option.some.inj h
    exact ⟨nofun, nofun, by rw [List.map_nil, List.flatMap_nil, List.append_nil]⟩
  | cons r receptions ih =>
    rw [List.foldlM_cons] at h
    obtain ⟨f', hwrite, hrest⟩ := Option.bind_eq_some_iff.mp h
    obtain ⟨hdecode, hfits, rfl⟩ := Reception.write_eq_some mode hwrite
    obtain ⟨hreadings, hall, rfl⟩ := ih _ hrest
    refine ⟨List.forall_mem_cons.mpr ⟨decodeTsNs_reading .little hdecode, hreadings⟩, ?_, ?_⟩
    · rw [List.map_cons]
      exact List.forall_mem_cons.mpr ⟨hfits, hall⟩
    · rw [List.map_cons, List.flatMap_cons, List.append_assoc]

end

/-! ### Sorting -/

theorem timeLE_iff (a b : Record) :
    timeLE a b = true ↔ a.tsSec < b.tsSec ∨ a.tsSec = b.tsSec ∧ a.tsFrac ≤ b.tsFrac := decide_eq_true_iff

theorem sort_pcapFile_iff {rs : List Record} (h : ∀ r ∈ rs, r.Fits) :
    (sortPcapByTimestamp .little (pcapFile rs)).1 = pcapFile rs ↔ rs.Pairwise fun a b => timeLE a b = true := by
  rw [sortPcapByTimestamp_records h]
  constructor
  · intro hsame
    have hfits : ∀ r ∈ rs.mergeSort timeLE, r.Fits := fun r hr => h r (List.mem_mergeSort.mp hr)
    have hread := readLoop_records hfits
    have hsame' : pcapFile (rs.mergeSort timeLE) = pcapFile rs := hsame
    rw [hsame', readLoop_records h] at hread
    rw [(Prod.mk.inj hread).1]
    refine List.pairwise_mergeSort ?_ ?_ rs
    · intro a b c hab hbc
      rw [timeLE_iff] at *
      omega
    · intro a b
      rw [Bool.or_eq_true, timeLE_iff, timeLE_iff]
      omega
  · intro hsorted
    rw [List.mergeSort_of_pairwise hsorted]

/-- **The order of the frames.** Where no clock runs backwards, `_sort_pcap_by_timestamp` leaves the frames in the order
in which they were received if and only if no frame comes after one that another clock gave a later time. -/
theorem sort_stampedFile_iff (mode : TsMode) {receptions : List Reception} {file : Bytes}
    (hclocks : ClocksRun .little mode receptions) (hfile : stampedFile .little mode receptions = some file) :
    (sortPcapByTimestamp .little file).1 = file ↔ ClocksAgree .little mode receptions := by
  obtain ⟨hreadings, hfits, rfl⟩ := stampedFile_eq_some mode hfile
  rw [sort_pcapFile_iff hfits, List.pairwise_map, ClocksAgree]
  constructor
  · intro hsorted
    refine hsorted.imp_of_mem fun {r r'} hr hr' hle _ a b ha hb => ?_
    rw [hreadings r hr] at ha
    rw [hreadings r' hr'] at hb
    obtain rfl := Option.some.inj ha
    obtain rfl := Option.some.inj hb
    rw [← timeLE_record, decide_eq_true_iff] at hle
    omega
  · intro hagree
    rw [List.pairwise_iff_forall_sublist] at hagree ⊢
    intro r r' hsub
    have hr := hreadings r (hsub.subset List.mem_cons_self)
    have hr' := hreadings r' (hsub.subset (List.mem_cons_of_mem r List.mem_cons_self))
    rw [← timeLE_record, decide_eq_true_iff]
    by_cases hclock : r.clock .little mode = r'.clock .little mode
    · have hrun := List.pairwise_iff_forall_sublist.mp (hclocks (r.clock .little mode)) hsub
      have hle := hrun _ _ hr (hclock ▸ hr')
      omega
    · have hle := hagree hsub hclock _ _ hr hr'
      omega

/-- `SCM_TIMESTAMPING` with these two times, in seconds. -/
def timestampingMessage (hw sw : Nat) : Cmsg :=
  ⟨solSocket, scmTimestamping, encode .little 8 hw ++ encode .little 8 0 ++ encode .little 8 sw ++
    encode .little 8 0 ++ List.replicate 16 0⟩

/-- Two frames with both times. -/
def bothTimes : List Reception := [⟨[1], [timestampingMessage 7 5], 1⟩, ⟨[2], [timestampingMessage 8 6], 2⟩]

theorem clocksAgree_bothTimes :
    ∃ file, stampedFile .little .hwTs bothTimes = some file ∧
      ((sortPcapByTimestamp .little file).1 = file ↔ ClocksAgree .little .hwTs bothTimes) :=
  ⟨_, rfl, sort_stampedFile_iff .hwTs (by decide +kernel) rfl⟩

/-- The hardware clock is ahead of the software clock, and stamps only the first of two frames. -/
def firstInHardware : List Reception := [⟨[1], [timestampingMessage 7 5], 1⟩, ⟨[2], [timestampingMessage 0 6], 2⟩]

/-- No clock runs backwards, and the second frame comes first in the sorted file. -/
theorem sort_firstInHardware :
    ClocksRun .little .hwTs firstInHardware ∧
      ∃ file sorted, stampedFile .little .hwTs firstInHardware = some file ∧
        sortPcapByTimestamp .little file = (sorted, true) ∧ flowRecords .little file = [[1], [2]] ∧
        flowRecords .little sorted = [[2], [1]] ∧ sorted ≠ file := by
  have hfits : ∀ r ∈ [Record.mk 7 0 [1], ⟨6, 0, [2]⟩], r.Fits := by
    intro r hr
    simp only [List.mem_cons, List.not_mem_nil, or_false] at hr
    rcases hr with rfl | rfl
    · exact ⟨by decide, by decide, by decide⟩
    · exact ⟨by decide, by decide, by decide⟩
  have hsorted : [Record.mk 7 0 [1], ⟨6, 0, [2]⟩].mergeSort timeLE = [⟨6, 0, [2]⟩, ⟨7, 0, [1]⟩] := by
    simp [List.mergeSort, List.MergeSort.Internal.splitInTwo, timeLE]
  have hsort := sortPcapByTimestamp_records hfits
  rw [hsorted] at hsort
  exact ⟨by decide +kernel, pcapFile [⟨7, 0, [1]⟩, ⟨6, 0, [2]⟩], pcapFile [⟨6, 0, [2]⟩, ⟨7, 0, [1]⟩], by decide +kernel,
    hsort, by decide +kernel, by decide +kernel, by decide +kernel⟩

end SocketServer.Capture
