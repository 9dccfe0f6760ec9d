import Mathlib.Data.List.Infix
import Mathlib.Data.List.Perm.Subperm
import SocketServer.Capture.RoundTrip

/-!
# The verdict of a capture

Between the receive thread of the capture child and the result of `tcpdump_stop` lie `AFPacketCapture.stop`, the
reordering and the exit code, and some of them drop exceptions. Here every write, flush and reception can fail
(`CaptureRun`).

* `recvLoop_tracked` : the file and its buffer are the records of the frames obtained, or break off within them;
* `tcpdumpStop_covers_iff` : the result `True` can be trusted exactly in the runs in which, if nothing else makes it
  `False`, every frame obtained is written and the flush writes the whole buffer.
-/

namespace SocketServer.Capture

open Bytes

/-! ### The file -/

/-- What becomes of a write: how many bytes of the buffer reach the file, and whether it raises. -/
structure WriteOutcome where
  flushed : Nat
  raises : Bool
  deriving DecidableEq, Repr

/-- A file and what its file object has in the buffer. -/
structure OutFile where
  disk : Bytes
  pending : Bytes
  deriving DecidableEq, Repr

/-- `f.write(data)`. If it raises, what was in the buffer stays there, and at least the last byte of `data` is lost. -/
def OutFile.write (f : OutFile) (outcome : WriteOutcome) (data : Bytes) : Bool × OutFile :=
  let buffer := f.pending ++ data
  if outcome.raises ∧ data ≠ [] then
    let k := min outcome.flushed (buffer.length - 1)
    (false, ⟨f.disk ++ buffer.take k, f.pending.drop k⟩)
  else (true, ⟨f.disk ++ buffer.take outcome.flushed, buffer.drop outcome.flushed⟩)

/-- `f.flush()`, which may raise after some bytes. -/
def OutFile.flush (f : OutFile) (raisesAfter : Option Nat) : OutFile :=
  match raisesAfter with
  | none => ⟨f.disk ++ f.pending, []⟩
  | some k => ⟨f.disk ++ f.pending.take k, f.pending.drop k⟩

/-- `struct.pack("<IIII", ts_sec, ts_nsec, caplen, caplen)`. -/
def packHeader (tsNs caplen : Nat) : Option Bytes := do
  let sec ← pack .little 4 (tsNs / 1000000000)
  let nsec ← pack .little 4 (tsNs % 1000000000)
  let len ← pack .little 4 caplen
  some (sec ++ nsec ++ len ++ len)

/-- What a `recvmsg` returns, and what becomes of its two writes. There is no time if `_decode_ts_ns` raises, or gives a
negative number, which `struct.pack` refuses. -/
structure Packet where
  data : Bytes
  ancdata : List Cmsg
  tsNs : Option Nat
  headerWrite : WriteOutcome
  dataWrite : WriteOutcome
  deriving DecidableEq, Repr

/-- `_restore_vlan(data, ancdata)`. -/
def Packet.frame (p : Packet) : Bytes := restoreVlan .little p.data p.ancdata

/-- `_decode_ts_ns`, `_restore_vlan` and `_write_packet`, `false` if one of them raises. -/
def Packet.process (p : Packet) (f : OutFile) : Bool × OutFile :=
  match p.tsNs with
  | none => (false, f)
  | some tsNs =>
    match packHeader tsNs p.frame.length with
    | none => (false, f)
    | some header =>
      match f.write p.headerWrite header with
      | (false, f) => (false, f)
      | (true, f) => f.write p.dataWrite p.frame

/-! ### The receive thread -/

inductive RecvResult
  | packet (p : Packet)
  | timeout
  /-- `ENETDOWN` or `ENODEV`. -/
  | unavailable
  /-- Any other `OSError`. -/
  | osError
  /-- Any other exception. -/
  | exception
  deriving DecidableEq, Repr

structure CaptureThread where
  file : OutFile
  obtained : List Packet
  /-- `_exc` is set. -/
  exc : Bool
  deriving DecidableEq, Repr

def CaptureThread.obtain (t : CaptureThread) (p : Packet) : CaptureThread := { t with obtained := t.obtained ++ [p] }

/-- How the first loop of `_recv_loop` is left. -/
inductive LoopEnd
  /-- `_stopped` is set. -/
  | stopped
  | broken
  | raised
  deriving DecidableEq, Repr

/-- The first loop, with the results of `recvmsg` up to the round in which `_stopped` is set. -/
def liveLoop : List RecvResult → CaptureThread → LoopEnd × CaptureThread
  | [], t => (.stopped, t)
  | .timeout :: rs, t => liveLoop rs t
  | .unavailable :: _, t => (.broken, { t with exc := true })
  | .osError :: _, t => (.broken, t)
  | .exception :: _, t => (.raised, { t with exc := true })
  | .packet p :: rs, t =>
    if p.data = [] then (.broken, t)
    else
      match p.process t.file with
      | (true, file) => liveLoop rs { t.obtain p with file := file }
      | (false, file) => (.raised, { t.obtain p with file := file, exc := true })

/-- The second loop, `drain`; `except Exception: pass`. -/
def drainLoop : List RecvResult → CaptureThread → CaptureThread
  | .packet p :: rs, t =>
    if p.data = [] then t
    else
      match p.process t.file with
      | (true, file) => drainLoop rs { t.obtain p with file := file }
      | (false, file) => { t.obtain p with file := file }
  | _, t => t

/-- Everything that can go one way or the other in a capture. -/
structure CaptureRun where
  live : List RecvResult
  drain : List RecvResult
  /-- `_stopped` is set by the time the first loop is left by a `break`. -/
  stoppedAtBreak : Bool
  /-- The thread ends before `join` times out. -/
  joins : Bool
  /-- The `flush` of `stop` raises after this many bytes. -/
  flush : Option Nat
  /-- A call of `_sort_pcap_by_timestamp` raises. -/
  sortRaises : Bool
  /-- A signal ends the child. -/
  signal : Option Nat
  /-- `_stop_capture_entry` returns `True`. -/
  entryStops : Bool
  deriving DecidableEq, Repr

/-- `_recv_loop`, on the file that `_open` leaves. -/
def recvLoop (run : CaptureRun) : CaptureThread :=
  match liveLoop run.live ⟨⟨globalHeader, []⟩, [], false⟩ with
  | (.raised, t) => t
  | (.stopped, t) => if t.exc then t else drainLoop run.drain t
  | (.broken, t) => if run.stoppedAtBreak ∧ ¬t.exc then drainLoop run.drain t else t

/-! ### The verdict -/

/-- `AFPacketCapture.stop`: what it returns, and the file. Neither `_exc` nor an exception of `flush` or `close` counts. -/
def stopCapture (run : CaptureRun) : Bool × Bytes :=
  let t := recvLoop run
  if run.joins then (true, (t.file.flush run.flush).disk) else (false, t.file.disk)

/-- `_capture_process_main` from the stop signal on: the exit code, and the file. -/
def captureProcessMain (run : CaptureRun) : Int × Bytes :=
  let (stopOk, file) := stopCapture run
  let (sorted, sortOk) :=
    if !stopOk then (file, true)
    else if run.sortRaises then (file, false)
    else sortPcapByTimestamp .little file
  match run.signal with
  | some n => (-(n + 1 : Int), file)
  | none => (if !stopOk || !sortOk then 1 else 0, sorted)

/-- `tcpdump_stop`, for a registered child. -/
def tcpdumpStop (run : CaptureRun) : Bool :=
  if !run.entryStops then false else decide ((captureProcessMain run).1 = 0)

/-- If `tcpdump_stop` returns `True`, the file holds a record of every frame obtained from `recvmsg`. -/
def Covers (run : CaptureRun) : Prop :=
  tcpdumpStop run = true →
    ((recvLoop run).obtained.map Packet.frame).Subperm (flowRecords .little (captureProcessMain run).2)

/-- The packet goes to the file object: its time and its length fit, and neither write raises. -/
def Packet.recorded (p : Packet) : Bool :=
  match p.tsNs with
  | none => false
  | some tsNs =>
    decide (tsNs / 1000000000 < 256 ^ 4) && decide (p.frame.length < 256 ^ 4) && !p.headerWrite.raises &&
      (!p.dataWrite.raises || p.frame == [])

/-- Nothing else makes the verdict `False`. -/
structure Unfailing (run : CaptureRun) : Prop where
  entryStops : run.entryStops = true
  signal : run.signal = none
  joins : run.joins = true
  sortRaises : run.sortRaises = false

/-- The flush of `stop` writes the whole buffer. -/
def FlushesAll (run : CaptureRun) : Prop := ∀ k, run.flush = some k → (recvLoop run).file.pending.length ≤ k

/-! ### One packet -/

/-- The bytes written so far, on disk or in the buffer. -/
def OutFile.total (f : OutFile) : Bytes := f.disk ++ f.pending

theorem OutFile.write_cases (f : OutFile) (outcome : WriteOutcome) (data : Bytes) :
    (¬(outcome.raises = true ∧ data ≠ []) ∧ ∃ f', f.write outcome data = (true, f') ∧ f.disk <+: f'.disk ∧
      f'.total = f.total ++ data) ∨
    ((outcome.raises = true ∧ data ≠ []) ∧ ∃ f', f.write outcome data = (false, f') ∧ f.disk <+: f'.disk ∧
      ∃ j < data.length, f'.total = f.total ++ data.take j) := by
  unfold OutFile.write
  dsimp only
  by_cases hraises : outcome.raises = true ∧ data ≠ []
  · rw [if_pos hraises]
    have hpos := List.length_pos_of_ne_nil hraises.2
    have hlen : (f.pending ++ data).length = f.pending.length + data.length := List.length_append
    refine .inr ⟨hraises, _, rfl, List.prefix_append _ _,
      min outcome.flushed ((f.pending ++ data).length - 1) - f.pending.length, by omega, ?_⟩
    generalize min outcome.flushed ((f.pending ++ data).length - 1) = k
    simp only [total, List.append_assoc]
    rcases Nat.le_total k f.pending.length with hk | hk
    · have hzero : k - f.pending.length = 0 := by omega
      rw [hzero, List.take_zero, List.append_nil, List.take_append_of_le_length hk, List.take_append_drop]
    · rw [List.take_append, List.take_of_length_le hk, List.drop_eq_nil_of_le hk, List.append_nil]
  · rw [if_neg hraises]
    refine .inl ⟨hraises, _, rfl, List.prefix_append _ _, ?_⟩
    simp only [total, List.append_assoc, List.take_append_drop]

theorem packHeader_eq (tsNs caplen : Nat) :
    packHeader tsNs caplen =
      if tsNs / 1000000000 < 256 ^ 4 ∧ caplen < 256 ^ 4 then
        some (headerBytes .little (tsNs / 1000000000) (tsNs % 1000000000) caplen)
      else none := by
  have hnsec : tsNs % 1000000000 < 256 ^ 4 :=
    Nat.lt_of_lt_of_le (Nat.mod_lt _ (by decide)) (by decide)
  unfold packHeader
  rw [pack_of_lt hnsec]
  by_cases hsec : tsNs / 1000000000 < 256 ^ 4
  · by_cases hlen : caplen < 256 ^ 4
    · rw [pack_of_lt hsec, pack_of_lt hlen, if_pos ⟨hsec, hlen⟩]
      rfl
    · rw [pack_of_lt hsec, pack, if_neg hlen, if_neg fun h => hlen h.2]
      rfl
  · rw [pack, if_neg hsec, if_neg fun h => hsec h.1]
    rfl

/-- A record of this frame is added to what is written, or a part of a record, and an exception raised. -/
inductive Adds (frame : Bytes) (f : OutFile) : Bool × OutFile → Prop
  | whole {f' : OutFile} (r : Record) : r.Fits → r.data = frame → f.disk <+: f'.disk →
      f'.total = f.total ++ r.bytes .little → Adds frame f (true, f')
  | cut {f' : OutFile} (r : Record) (j : Nat) : r.Fits → j < (r.bytes .little).length → f.disk <+: f'.disk →
      f'.total = f.total ++ (r.bytes .little).take j → Adds frame f (false, f')

theorem Adds.nothing (frame : Bytes) (f : OutFile) : Adds frame f (false, f) :=
  .cut ⟨0, 0, []⟩ 0 ⟨by decide, by decide, by decide⟩ (by decide) List.prefix_rfl
    (by rw [List.take_zero, List.append_nil])

theorem Packet.process_adds (p : Packet) (f : OutFile) :
    (p.process f).1 = p.recorded ∧ Adds p.frame f (p.process f) := by
  unfold process recorded
  rcases p.tsNs with _ | tsNs
  · exact ⟨rfl, .nothing _ f⟩
  dsimp only
  rw [packHeader_eq]
  by_cases hfits : tsNs / 1000000000 < 256 ^ 4 ∧ p.frame.length < 256 ^ 4
  · have hnsec : tsNs % 1000000000 < 256 ^ 4 := Nat.lt_of_lt_of_le (Nat.mod_lt _ (by decide)) (by decide)
    have hrecord : (⟨tsNs / 1000000000, tsNs % 1000000000, p.frame⟩ : Record).Fits := ⟨hfits.1, hnsec, hfits.2⟩
    generalize hheader : headerBytes .little (tsNs / 1000000000) (tsNs % 1000000000) p.frame.length = header
    have hbytes : (⟨tsNs / 1000000000, tsNs % 1000000000, p.frame⟩ : Record).bytes .little = header ++ p.frame := by
      rw [Record.bytes, hheader]
    have hsixteen : header.length = 16 := by rw [← hheader, headerBytes_length]
    have hne : header ≠ [] := List.ne_nil_of_length_pos (by omega)
    rw [if_pos hfits, decide_eq_true hfits.1, decide_eq_true hfits.2]
    dsimp only
    rcases f.write_cases p.headerWrite header with
      ⟨hok, f₁, hwrite, hdisk, htotal⟩ | ⟨hraise, f₁, hwrite, hdisk, j, hj, htotal⟩
    · have hraises : p.headerWrite.raises = false := by simpa [hne] using hok
      rw [hwrite, hraises]
      dsimp only
      rcases f₁.write_cases p.dataWrite p.frame with
        ⟨hok', f₂, hwrite', hdisk', htotal'⟩ | ⟨hraise', f₂, hwrite', hdisk', j, hj, htotal'⟩
      · rw [hwrite']
        refine ⟨?_, .whole _ hrecord rfl (hdisk.trans hdisk') ?_⟩
        · by_cases hdata : p.dataWrite.raises = true
          · have hempty : p.frame = [] := by simpa [hdata] using hok'
            simp [hempty]
          · simp [hdata]
        · rw [htotal', htotal, hbytes, List.append_assoc]
      · rw [hwrite']
        refine ⟨by simp [hraise'.1, hraise'.2], .cut _ (16 + j) hrecord ?_ (hdisk.trans hdisk') ?_⟩
        · rw [hbytes, List.length_append]
          omega
        · rw [htotal', htotal, hbytes, ← hsixteen, List.take_length_add_append, List.append_assoc]
    · rw [hwrite, hraise.1]
      refine ⟨by simp, .cut _ j hrecord ?_ hdisk ?_⟩
      · rw [hbytes, List.length_append]
        omega
      · rw [htotal, hbytes, List.take_append_of_le_length (by omega)]
  · rw [if_neg hfits]
    refine ⟨?_, .nothing _ f⟩
    rw [not_and_or] at hfits
    rcases hfits with hsec | hlen
    · rw [decide_eq_false hsec]
      rfl
    · rw [decide_eq_false hlen, Bool.and_false]
      rfl

/-! ### The thread -/

/-- The file holds the records of the packets obtained. -/
structure Whole (f : OutFile) (obtained : List Packet) : Prop where
  recorded : ∀ p ∈ obtained, p.recorded = true
  opened : globalHeader <+: f.disk
  records : ∃ rs : List Record, (∀ r ∈ rs, r.Fits) ∧ rs.map Record.data = obtained.map Packet.frame ∧
    f.total = pcapFile rs

/-- The file breaks off within as many records as packets have been obtained. -/
structure Cut (f : OutFile) (obtained : List Packet) : Prop where
  unrecorded : ∃ p ∈ obtained, p.recorded = false
  opened : globalHeader <+: f.disk
  records : ∃ rs : List Record, (∀ r ∈ rs, r.Fits) ∧ rs.length = obtained.length ∧
    ∃ j < (rs.flatMap (Record.bytes .little)).length,
      f.total = globalHeader ++ (rs.flatMap (Record.bytes .little)).take j

theorem Whole.process {f : OutFile} {obtained : List Packet} (h : Whole f obtained) (p : Packet) :
    (∃ f', p.process f = (true, f') ∧ Whole f' (obtained ++ [p])) ∨
      ∃ f', p.process f = (false, f') ∧ Cut f' (obtained ++ [p]) := by
  obtain ⟨rs, hfits, hdata, htotal⟩ := h.records
  obtain ⟨hfst, hadds⟩ := p.process_adds f
  have hmem : ∀ r : Record, r.Fits → ∀ r' ∈ rs ++ [r], r'.Fits := by
    intro r hr r' hr'
    rcases List.mem_append.mp hr' with hr' | hr'
    · exact hfits r' hr'
    · rw [List.mem_singleton.mp hr']
      exact hr
  have hflat (r : Record) : (rs ++ [r]).flatMap (Record.bytes .little) =
      rs.flatMap (Record.bytes .little) ++ r.bytes .little := by
    rw [List.flatMap_append, List.flatMap_singleton]
  rcases hprocess : p.process f with ⟨ok, f'⟩
  rw [hprocess] at hfst hadds
  cases hadds with
  | whole r hr hframe hdisk htotal' =>
    refine .inl ⟨f', rfl, ?_, h.opened.trans hdisk, rs ++ [r], hmem r hr, ?_, ?_⟩
    · intro q hq
      rcases List.mem_append.mp hq with hq | hq
      · exact h.recorded q hq
      · rw [List.mem_singleton.mp hq]
        exact hfst.symm
    · rw [List.map_append, List.map_append, hdata, List.map_singleton, List.map_singleton, hframe]
    · rw [htotal', htotal, pcapFile, pcapFile, hflat, List.append_assoc]
  | cut r j hr hj hdisk htotal' =>
    have hlen : rs.length = obtained.length := by
      have := congrArg List.length hdata
      rwa [List.length_map, List.length_map] at this
    refine .inr ⟨f', rfl, ⟨p, List.mem_append_right _ (List.mem_singleton_self p), hfst.symm⟩, h.opened.trans hdisk,
      rs ++ [r], hmem r hr, ?_, (rs.flatMap (Record.bytes .little)).length + j, ?_, ?_⟩
    · rw [List.length_append, List.length_append, hlen]
      rfl
    · rw [hflat, List.length_append]
      omega
    · rw [htotal', htotal, pcapFile, hflat, List.take_length_add_append, List.append_assoc]

theorem liveLoop_tracked (rs : List RecvResult) {t : CaptureThread} (h : Whole t.file t.obtained) :
    Whole (liveLoop rs t).2.file (liveLoop rs t).2.obtained ∨
      (liveLoop rs t).1 = .raised ∧ Cut (liveLoop rs t).2.file (liveLoop rs t).2.obtained := by
  induction rs generalizing t with
  | nil => exact .inl h
  | cons result rs ih =>
    cases result with
    | packet p =>
      rw [liveLoop]
      by_cases hempty : p.data = []
      · rw [if_pos hempty]
        exact .inl h
      · rw [if_neg hempty]
        rcases h.process p with ⟨f', hprocess, hwhole⟩ | ⟨f', hprocess, hcut⟩
        · rw [hprocess]
          have hnext : Whole { t.obtain p with file := f' }.file { t.obtain p with file := f' }.obtained := hwhole
          exact ih hnext
        · rw [hprocess]
          exact .inr ⟨rfl, hcut⟩
    | timeout => exact ih h
    | unavailable => exact .inl h
    | osError => exact .inl h
    | exception => exact .inl h

theorem drainLoop_tracked (rs : List RecvResult) {t : CaptureThread} (h : Whole t.file t.obtained) :
    Whole (drainLoop rs t).file (drainLoop rs t).obtained ∨ Cut (drainLoop rs t).file (drainLoop rs t).obtained := by
  induction rs generalizing t with
  | nil => exact .inl h
  | cons result rs ih =>
    cases result with
    | packet p =>
      rw [drainLoop]
      by_cases hempty : p.data = []
      · rw [if_pos hempty]
        exact .inl h
      · rw [if_neg hempty]
        rcases h.process p with ⟨f', hprocess, hwhole⟩ | ⟨f', hprocess, hcut⟩
        · rw [hprocess]
          have hnext : Whole { t.obtain p with file := f' }.file { t.obtain p with file := f' }.obtained := hwhole
          exact ih hnext
        · rw [hprocess]
          exact .inr hcut
    | timeout => exact .inl h
    | unavailable => exact .inl h
    | osError => exact .inl h
    | exception => exact .inl h

/-- **The receive thread** leaves the records of all frames it obtained, or breaks off within them. -/
theorem recvLoop_tracked (run : CaptureRun) :
    Whole (recvLoop run).file (recvLoop run).obtained ∨ Cut (recvLoop run).file (recvLoop run).obtained := by
  have hopen : Whole ⟨globalHeader, []⟩ [] := by
    refine ⟨nofun, List.prefix_rfl, [], nofun, rfl, ?_⟩
    rw [OutFile.total, List.append_nil, pcapFile, List.flatMap_nil, List.append_nil]
  have hlive := liveLoop_tracked run.live (t := ⟨⟨globalHeader, []⟩, [], false⟩) hopen
  rw [recvLoop]
  rcases hloop : liveLoop run.live ⟨⟨globalHeader, []⟩, [], false⟩ with ⟨_ | _ | _, t⟩
  · rw [hloop] at hlive
    have hwhole := hlive.resolve_right fun h => nomatch h.1
    dsimp only
    split_ifs
    · exact .inl hwhole
    · exact drainLoop_tracked run.drain hwhole
  · rw [hloop] at hlive
    have hwhole := hlive.resolve_right fun h => nomatch h.1
    dsimp only
    split_ifs
    · exact drainLoop_tracked run.drain hwhole
    · exact .inl hwhole
  · rw [hloop] at hlive
    exact hlive.imp_right And.right

/-! ### The file in the end -/

theorem completeRecord_cut {r : Record} (h : r.Fits) {j : Nat} (hj : j < (r.bytes .little).length) :
    completeRecord .little ((r.bytes .little).take j) = .stop := by
  have hsplit : r.bytes .little = headerBytes .little r.tsSec r.tsFrac r.data.length ++ r.data := rfl
  have hlen : (r.bytes .little).length = 16 + r.data.length := by rw [hsplit, List.length_append, headerBytes_length]
  simp only [completeRecord]
  by_cases hshort : j < 16
  · rw [if_pos]
    rw [List.length_take, List.length_take]
    omega
  · have hheader : ((r.bytes .little).take j).take 16 = headerBytes .little r.tsSec r.tsFrac r.data.length := by
      rw [List.take_take, Nat.min_eq_left (by omega), hsplit]
      exact List.take_left' (headerBytes_length ..)
    rw [hheader, headerBytes_length, if_neg (by decide), unpackHeader_headerBytes h.tsSec h.tsFrac h.data, if_pos]
    simp only [List.length_take, List.length_drop]
    omega

/-- A reader of a file that breaks off within a record finds the records before it. -/
theorem readLoop_cut {rs : List Record} (h : ∀ r ∈ rs, r.Fits) {j : Nat}
    (hj : j < (rs.flatMap (Record.bytes .little)).length) :
    ∃ k < rs.length, readLoop (completeRecord .little) ((rs.flatMap (Record.bytes .little)).take j) =
      (rs.take k, none) := by
  induction rs generalizing j with
  | nil => cases hj
  | cons r rs ih =>
    rw [List.flatMap_cons] at hj ⊢
    rcases Nat.lt_or_ge j (r.bytes .little).length with hlt | hge
    · refine ⟨0, Nat.zero_lt_succ _, ?_⟩
      rw [List.take_append_of_le_length hlt.le, readLoop_eq (consuming_completeRecord .little),
        completeRecord_cut (h r List.mem_cons_self) hlt]
      rfl
    · rw [List.length_append] at hj
      obtain ⟨k, hk, hread⟩ := ih (fun r' hr' => h r' (List.mem_cons_of_mem r hr'))
        (j := j - (r.bytes .little).length) (by omega)
      refine ⟨k + 1, Nat.succ_lt_succ hk, ?_⟩
      rw [List.take_append, List.take_of_length_le hge, readLoop_eq (consuming_completeRecord .little),
        completeRecord_bytes .little (h r List.mem_cons_self)]
      dsimp only
      rw [hread, List.take_succ_cons]

theorem flowRecords_sorted {rs : List Record} (hfits : ∀ r ∈ rs, r.Fits) {body : Bytes}
    (hread : readLoop (completeRecord .little) body = (rs, none)) :
    sortPcapByTimestamp .little (globalHeader ++ body) = (pcapFile (rs.mergeSort timeLE), true) ∧
      flowRecords .little (pcapFile (rs.mergeSort timeLE)) = (rs.mergeSort timeLE).map Record.data := by
  have hendian : magicEndian pcapMagicNsLe = some .little := rfl
  have htake : (globalHeader ++ body).take 24 = globalHeader := List.take_left' globalHeader_length
  have hdrop : (globalHeader ++ body).drop 24 = body := List.drop_left' globalHeader_length
  have hdecoded : sorterRecords .little (globalHeader ++ body) = some (.little, rs) := by
    simp only [sorterRecords, htake, decode_magic, globalHeader_length, Nat.lt_irrefl, if_false, hendian, hdrop, hread,
      Option.map_some]
  refine ⟨?_, ?_⟩
  · rw [sortPcapByTimestamp_eq, hdecoded, htake]
    rfl
  · refine flowRecords_records fun r hr => ?_
    rw [List.mem_mergeSort] at hr
    exact hfits r hr

theorem covers_of_whole {f : OutFile} {obtained : List Packet} (h : Whole f obtained) :
    (obtained.map Packet.frame).Subperm (flowRecords .little (sortPcapByTimestamp .little f.total).1) := by
  obtain ⟨rs, hfits, hdata, htotal⟩ := h.records
  have hread := readLoop_records hfits
  rw [pcapFile_drop] at hread
  obtain ⟨hsort, hflow⟩ := flowRecords_sorted hfits hread
  rw [htotal, pcapFile, hsort, hflow, ← hdata]
  exact ((List.mergeSort_perm rs timeLE).map Record.data).symm.subperm

theorem not_covers_of_cut {rs : List Record} (hfits : ∀ r ∈ rs, r.Fits) {frames : List Bytes}
    (hlen : frames.length = rs.length) {j : Nat} (hj : j < (rs.flatMap (Record.bytes .little)).length) :
    ¬frames.Subperm (flowRecords .little
      (sortPcapByTimestamp .little (globalHeader ++ (rs.flatMap (Record.bytes .little)).take j)).1) := by
  intro hsub
  obtain ⟨k, hk, hread⟩ := readLoop_cut hfits hj
  have hfits' : ∀ r ∈ rs.take k, r.Fits := fun r hr => hfits r (List.mem_of_mem_take hr)
  obtain ⟨hsort, hflow⟩ := flowRecords_sorted hfits' hread
  have hle := hsub.length_le
  rw [hsort, hflow, List.length_map, List.length_mergeSort, List.length_take, hlen] at hle
  omega

/-! ### The verdict -/

theorem tcpdumpStop_eq_true_iff (run : CaptureRun) : tcpdumpStop run = true ↔ Unfailing run := by
  have hexit : (captureProcessMain run).1 = 0 ↔ run.signal = none ∧ run.joins = true ∧ run.sortRaises = false := by
    have hsort : ∀ file, (sortPcapByTimestamp .little file).2 = true := by
      intro file
      rw [sortPcapByTimestamp_eq]
      split <;> rfl
    unfold captureProcessMain stopCapture
    rcases run.signal with _ | n
    · cases run.joins <;> cases run.sortRaises <;> simp [hsort]
    · refine iff_of_false ?_ nofun
      intro hzero
      have hne : -((n : Int) + 1) ≠ 0 := by omega
      exact hne hzero
  rw [tcpdumpStop]
  constructor
  · intro h
    cases hentry : run.entryStops with
    | false =>
      rw [hentry] at h
      cases h
    | true =>
      rw [hentry] at h
      obtain ⟨hsignal, hjoins, hsort⟩ := hexit.mp (of_decide_eq_true h)
      exact ⟨hentry, hsignal, hjoins, hsort⟩
  · intro h
    rw [h.entryStops]
    exact decide_eq_true (hexit.mpr ⟨h.signal, h.joins, h.sortRaises⟩)

theorem file_of_unfailing {run : CaptureRun} (h : Unfailing run) :
    (captureProcessMain run).2 = (sortPcapByTimestamp .little ((recvLoop run).file.flush run.flush).disk).1 := by
  unfold captureProcessMain stopCapture
  rw [h.signal, h.joins, h.sortRaises]
  rfl

theorem flush_disk_all {f : OutFile} {raisesAfter : Option Nat} (h : ∀ k, raisesAfter = some k → f.pending.length ≤ k) :
    (f.flush raisesAfter).disk = f.total := by
  rcases raisesAfter with _ | k
  · rfl
  · rw [OutFile.flush, List.take_of_length_le (h k rfl)]
    rfl

theorem flush_disk_prefix (f : OutFile) (raisesAfter : Option Nat) :
    f.disk <+: (f.flush raisesAfter).disk ∧ (f.flush raisesAfter).disk <+: f.total := by
  rcases raisesAfter with _ | k
  · exact ⟨List.prefix_append _ _, List.prefix_rfl⟩
  · exact ⟨List.prefix_append _ _, (List.prefix_append_right_inj _).mpr (List.take_prefix _ _)⟩

theorem exists_cut {x body : Bytes} {j : Nat} (hopened : globalHeader <+: x)
    (hx : x <+: globalHeader ++ body.take j) : ∃ i ≤ j, x = globalHeader ++ body.take i := by
  obtain ⟨d, rfl⟩ := hopened
  have hd : d <+: body.take j := (List.prefix_append_right_inj globalHeader).mp hx
  have hlen := hd.length_le
  rw [List.length_take] at hlen
  refine ⟨d.length, by omega, ?_⟩
  rw [List.prefix_iff_eq_take] at hd
  nth_rewrite 1 [hd]
  rw [List.take_take, Nat.min_eq_left (by omega)]

/-- **The verdict of a capture.** If `tcpdump_stop` returns `True`, the file holds a record of every frame obtained, in
exactly those runs in which, unless something else makes the verdict `False`, every frame obtained is recorded and the
flush writes the whole buffer. -/
theorem tcpdumpStop_covers_iff (run : CaptureRun) :
    Covers run ↔ (Unfailing run → (∀ p ∈ (recvLoop run).obtained, p.recorded = true) ∧ FlushesAll run) := by
  rw [Covers, tcpdumpStop_eq_true_iff]
  refine forall_congr' fun hunfailing => ?_
  rw [file_of_unfailing hunfailing]
  obtain ⟨hdisk, htotal⟩ := flush_disk_prefix (recvLoop run).file run.flush
  rcases recvLoop_tracked run with hwhole | hcut
  · constructor
    · intro hcovers
      refine ⟨hwhole.recorded, fun k hk => ?_⟩
      by_contra hlost
      -- the flush leaves a part of the records in the buffer
      obtain ⟨rs, hfits, hdata, hrecords⟩ := hwhole.records
      have hlen : ((recvLoop run).obtained.map Packet.frame).length = rs.length := by
        rw [← hdata, List.length_map]
      have hshort : ((recvLoop run).file.flush run.flush).disk.length < (recvLoop run).file.total.length := by
        rw [hk, OutFile.flush, OutFile.total, List.length_append, List.length_append, List.length_take]
        omega
      rw [hrecords, pcapFile] at htotal hshort
      rw [← List.take_length (l := rs.flatMap (Record.bytes .little))] at htotal
      obtain ⟨i, -, hi⟩ := exists_cut (hwhole.opened.trans hdisk) htotal
      rw [hi, List.length_append, List.length_append, List.length_take] at hshort
      rw [hi] at hcovers
      exact not_covers_of_cut hfits hlen (by omega) hcovers
    · rintro ⟨-, hflush⟩
      rw [flush_disk_all hflush]
      exact covers_of_whole hwhole
  · obtain ⟨p, hp, hunrecorded⟩ := hcut.unrecorded
    obtain ⟨rs, hfits, hlen, j, hj, hrecords⟩ := hcut.records
    rw [hrecords] at htotal
    obtain ⟨i, hi, hfile⟩ := exists_cut (hcut.opened.trans hdisk) htotal
    rw [hfile]
    have hlen' : ((recvLoop run).obtained.map Packet.frame).length = rs.length := by rw [List.length_map, hlen]
    constructor
    · intro hcovers
      exact absurd hcovers (not_covers_of_cut hfits hlen' (by omega))
    · rintro ⟨hrecorded, -⟩
      rw [hrecorded p hp] at hunrecorded
      cases hunrecorded

/-- A frame of 14 bytes, whose record header does not reach the disk (`ENOSPC`). -/
def diskFull : CaptureRun where
  live := [.packet ⟨List.replicate 14 1, [], some 7, ⟨0, true⟩, ⟨0, false⟩⟩]
  drain := []
  stoppedAtBreak := true
  joins := true
  flush := none
  sortRaises := false
  signal := none
  entryStops := true

/-- `tcpdump_stop` returns `True`, and the file holds no record. -/
theorem diskFull_lost :
    tcpdumpStop diskFull = true ∧ (recvLoop diskFull).obtained.map Packet.frame = [List.replicate 14 1] ∧
      flowRecords .little (captureProcessMain diskFull).2 = [] ∧ ¬Covers diskFull := by
  have hunfailing : Unfailing diskFull := ⟨rfl, rfl, rfl, rfl⟩
  have hframes : (recvLoop diskFull).obtained.map Packet.frame = [List.replicate 14 1] := by decide +kernel
  have hempty : flowRecords .little (captureProcessMain diskFull).2 = [] := by decide +kernel
  have hverdict : tcpdumpStop diskFull = true := (tcpdumpStop_eq_true_iff diskFull).mpr hunfailing
  refine ⟨hverdict, hframes, hempty, ?_⟩
  intro hcovers
  have hsub := (hcovers hverdict).length_le
  rw [hframes, hempty] at hsub
  exact absurd hsub (by decide)

end SocketServer.Capture
