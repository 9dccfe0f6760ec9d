import SocketServer.Capture.Vlan
import SocketServer.Lib.Records

/-!
# Capture files

The capture writes a pcap file (`_open`, `_write_packet`), reorders it (`_sort_pcap_by_timestamp`), and two other
programs read it: `replay_file` of the replayer and `extract_pcap_flow_five_tuples`. Each of the four has its own
encoder or decoder of the same record.

* `captureFile_eq` : the file a capture writes is the global header and the records of the frames;
* `sortPcapByTimestamp_eq` : reordering sorts the records it decodes by time, and keeps the order of equal times;
* `replayRecords_records`, `flowRecords_records` : both readers read the records back.
-/

namespace SocketServer.Capture

open Bytes

/-! ### The file format -/

def pcapMagicUsLe : Nat := 0xA1B2C3D4

def pcapMagicUsBe : Nat := 0xD4C3B2A1

def pcapMagicNsLe : Nat := 0xA1B23C4D

def pcapMagicNsBe : Nat := 0x4D3CB2A1

def dltEn10mb : Nat := 1

/-- `global_header` of `_open`. -/
def globalHeader : Bytes :=
  encode .little 4 pcapMagicNsLe ++ encode .little 2 2 ++ encode .little 2 4 ++ encode .little 4 0 ++
    encode .little 4 0 ++ encode .little 4 65535 ++ encode .little 4 dltEn10mb

structure RecordHeader where
  tsSec : Nat
  tsFrac : Nat
  inclLen : Nat
  origLen : Nat
  deriving DecidableEq, Repr

/-- `struct.unpack(e + "IIII", hdr)`. -/
def unpackHeader (e : Endian) (hdr : Bytes) : RecordHeader where
  tsSec := decode e (slice hdr 0 4)
  tsFrac := decode e (slice hdr 4 8)
  inclLen := decode e (slice hdr 8 12)
  origLen := decode e (slice hdr 12 16)

/-- `struct.pack(e + "IIII", ts_sec, ts_frac, len(data), len(data))` and `data`. -/
def packRecord (e : Endian) (tsSec tsFrac : Nat) (data : Bytes) : Option Bytes := do
  let sec ← pack e 4 tsSec
  let frac ← pack e 4 tsFrac
  let len ← pack e 4 data.length
  some (sec ++ frac ++ len ++ len ++ data)

/-! ### Writing (`capture.py`) -/

/-- The file after `_write_packet(data, ts_ns)`. -/
def writePacket (f data : Bytes) (tsNs : Nat) : Option Bytes := do
  let record ← packRecord .little (tsNs / 1000000000) (tsNs % 1000000000) data
  some (f ++ record)

/-- What `recvmsg` returns, and the time `_decode_ts_ns` gives it. -/
structure Delivery where
  data : Bytes
  ancdata : List Cmsg
  tsNs : Nat
  deriving DecidableEq, Repr

/-- The file after `_open`, and `_restore_vlan` and `_write_packet` of each of these deliveries. -/
def captureFile (host : Endian) (deliveries : List Delivery) : Option Bytes :=
  deliveries.foldlM (fun f d => writePacket f (restoreVlan host d.data d.ancdata) d.tsNs) globalHeader

/-! ### Reordering (`_sort_pcap_by_timestamp`) -/

/-- A record, without its number in the file. -/
structure Record where
  tsSec : Nat
  tsFrac : Nat
  data : Bytes
  deriving DecidableEq, Repr

/-- One turn of a loop that stops at a header or at data that breaks off. -/
def completeRecord (e : Endian) (f : Bytes) : Turn Empty Record :=
  let hdr := f.take 16
  if hdr.length < 16 then .stop
  else
    let header := unpackHeader e hdr
    let data := (f.drop 16).take header.inclLen
    if data.length < header.inclLen then .stop
    else .item ⟨header.tsSec, header.tsFrac, data⟩ (f.drop (16 + header.inclLen))

/-- `endian`, by the magic number. -/
def magicEndian (magic : Nat) : Option Endian :=
  if magic = pcapMagicUsLe then some .little
  else if magic = pcapMagicUsBe then some .big
  else if magic = pcapMagicNsLe then some .little
  else if magic = pcapMagicNsBe then some .big
  else none

/-- `a[0:3] <= b[0:3]`, for records numbered in the order of the file. -/
def keyLE (a b : Record × Nat) : Bool :=
  decide (a.1.tsSec < b.1.tsSec ∨ a.1.tsSec = b.1.tsSec ∧
    (a.1.tsFrac < b.1.tsFrac ∨ a.1.tsFrac = b.1.tsFrac ∧ a.2 ≤ b.2))

/-- `_sort_pcap_by_timestamp`: the file it leaves and what it returns. -/
def sortPcapByTimestamp (host : Endian) (file : Bytes) : Bytes × Bool :=
  let header := file.take 24
  if header.length < 24 then (file, true)
  else
    match magicEndian (decode host (header.take 4)) with
    | none => (file, true)
    | some e =>
      let records := (readLoop (completeRecord e) (file.drop 24)).1.zipIdx.mergeSort keyLE
      match records.mapM fun r => packRecord e r.1.tsSec r.1.tsFrac r.1.data with
      | some packed => (header ++ packed.flatten, true)
      | none => (file, false)

/-! ### Reading (`replay_file`, `extract_pcap_flow_five_tuples`) -/

/-- A packet as `replay_file` reads it; its time is `ts_sec + ts_frac / ts_divisor`. -/
structure ReplayRecord where
  tsSec : Nat
  tsFrac : Nat
  tsDivisor : Nat
  inclLen : Nat
  origLen : Nat
  pktData : Bytes
  deriving DecidableEq, Repr

/-- What `replay_file` raises while it reads. -/
inductive ReplayError
  /-- `pcap 全局头不完整`. -/
  | incompleteHeader
  /-- `struct.error`. -/
  | unpackHeader
  deriving DecidableEq, Repr

/-- One turn of the loop of `replay_file`. -/
def replayTurn (host : Endian) (tsDivisor : Nat) (f : Bytes) : Turn ReplayError ReplayRecord :=
  let pktHdr := f.take 16
  if pktHdr = [] then .stop
  else if pktHdr.length < 16 then .fail .unpackHeader
  else
    let header := unpackHeader host pktHdr
    let pktData := (f.drop 16).take header.inclLen
    .item ⟨header.tsSec, header.tsFrac, tsDivisor, header.inclLen, header.origLen, pktData⟩
      (f.drop (16 + header.inclLen))

/-- `ts_divisor`, by the magic number. -/
def tsDivisor (magic : Nat) : Nat :=
  if magic = 0xA1B23C4D ∨ magic = 0x4D3CB2A1 then 1000000000 else 1000000

/-- The packets `replay_file` reads, and the exception that ends it. -/
def replayRecords (host : Endian) (file : Bytes) : List ReplayRecord × Option ReplayError :=
  let header := file.take 24
  if header.length < 24 then ([], some .incompleteHeader)
  else readLoop (replayTurn host (tsDivisor (decode host (header.take 4)))) (file.drop 24)

/-- The `pkt_data` that `extract_pcap_flow_five_tuples` reads. -/
def flowRecords (host : Endian) (file : Bytes) : List Bytes :=
  (readLoop (completeRecord host) (file.drop 24)).1.map Record.data

/-! ### Records -/

/-- The fields and the length fit a record. -/
structure Record.Fits (r : Record) : Prop where
  tsSec : r.tsSec < 256 ^ 4
  tsFrac : r.tsFrac < 256 ^ 4
  data : r.data.length < 256 ^ 4

/-- The header of a packet of `n` bytes. -/
def headerBytes (e : Endian) (tsSec tsFrac n : Nat) : Bytes :=
  encode e 4 tsSec ++ encode e 4 tsFrac ++ encode e 4 n ++ encode e 4 n

def Record.bytes (e : Endian) (r : Record) : Bytes := headerBytes e r.tsSec r.tsFrac r.data.length ++ r.data

@[simp] theorem headerBytes_length (e : Endian) (tsSec tsFrac n : Nat) :
    (headerBytes e tsSec tsFrac n).length = 16 := by
  simp [headerBytes]

@[simp] theorem globalHeader_length : globalHeader.length = 24 := rfl

theorem unpackHeader_headerBytes {e : Endian} {tsSec tsFrac n : Nat} (hsec : tsSec < 256 ^ 4)
    (hfrac : tsFrac < 256 ^ 4) (hn : n < 256 ^ 4) :
    unpackHeader e (headerBytes e tsSec tsFrac n) = ⟨tsSec, tsFrac, n, n⟩ := by
  have hsec' := decode_encode_of_lt (e := e) hsec
  have hfrac' := decode_encode_of_lt (e := e) hfrac
  have hn' := decode_encode_of_lt (e := e) hn
  simp [unpackHeader, headerBytes, slice_append_left, slice_append_right, slice_all, hsec', hfrac', hn']

theorem packRecord_of_fits (e : Endian) {r : Record} (h : r.Fits) :
    packRecord e r.tsSec r.tsFrac r.data = some (r.bytes e) := by
  simp [packRecord, pack_of_lt h.tsSec, pack_of_lt h.tsFrac, pack_of_lt h.data, Record.bytes, headerBytes]

theorem Record.take_bytes (e : Endian) (r : Record) (s : Bytes) :
    (r.bytes e ++ s).take 16 = headerBytes e r.tsSec r.tsFrac r.data.length := by
  rw [Record.bytes, List.append_assoc]
  exact List.take_left' (headerBytes_length ..)

theorem Record.drop_bytes (e : Endian) (r : Record) (s : Bytes) : (r.bytes e ++ s).drop 16 = r.data ++ s := by
  rw [Record.bytes, List.append_assoc]
  exact List.drop_left' (headerBytes_length ..)

theorem Record.drop_record (e : Endian) (r : Record) (s : Bytes) : (r.bytes e ++ s).drop (16 + r.data.length) = s := by
  rw [← List.drop_drop, r.drop_bytes, List.drop_left]

theorem completeRecord_bytes (e : Endian) {r : Record} (h : r.Fits) (s : Bytes) :
    completeRecord e (r.bytes e ++ s) = .item r s := by
  have hread := unpackHeader_headerBytes (e := e) h.tsSec h.tsFrac h.data
  have hdata : (r.data ++ s).take r.data.length = r.data := List.take_left
  simp only [completeRecord, r.take_bytes, r.drop_bytes, headerBytes_length, hread, hdata, r.drop_record, Nat.lt_irrefl,
    if_false]

theorem replayTurn_bytes (e : Endian) (divisor : Nat) {r : Record} (h : r.Fits) (s : Bytes) :
    replayTurn e divisor (r.bytes e ++ s) =
      .item ⟨r.tsSec, r.tsFrac, divisor, r.data.length, r.data.length, r.data⟩ s := by
  have hread := unpackHeader_headerBytes (e := e) h.tsSec h.tsFrac h.data
  have hdata : (r.data ++ s).take r.data.length = r.data := List.take_left
  have hne : headerBytes e r.tsSec r.tsFrac r.data.length ≠ [] :=
    List.ne_nil_of_length_pos (by rw [headerBytes_length]; decide)
  simp only [replayTurn, r.take_bytes, r.drop_bytes, headerBytes_length, hread, hdata, r.drop_record, Nat.lt_irrefl, hne,
    if_false]

theorem consuming_completeRecord (e : Endian) : Consuming (completeRecord e) := by
  intro s r rest h
  simp only [completeRecord] at h
  split at h
  · cases h
  · split at h
    · cases h
    · cases h
      rename_i hlong _
      rw [List.length_take] at hlong
      rw [List.length_drop]
      omega

theorem consuming_replayTurn (host : Endian) (divisor : Nat) : Consuming (replayTurn host divisor) := by
  intro s r rest h
  simp only [replayTurn] at h
  split at h
  · cases h
  · split at h
    · cases h
    · cases h
      rename_i hlong
      rw [List.length_take] at hlong
      rw [List.length_drop]
      omega

/-! ### Files of records -/

/-- The global header and records. -/
def pcapFile (rs : List Record) : Bytes := globalHeader ++ rs.flatMap (Record.bytes .little)

theorem pcapFile_take (rs : List Record) : (pcapFile rs).take 24 = globalHeader := List.take_left' globalHeader_length

theorem pcapFile_drop (rs : List Record) : (pcapFile rs).drop 24 = rs.flatMap (Record.bytes .little) :=
  List.drop_left' globalHeader_length

theorem decode_magic : decode .little (globalHeader.take 4) = pcapMagicNsLe := rfl

section

variable {rs : List Record} (h : ∀ r ∈ rs, r.Fits)

include h

theorem readLoop_records : readLoop (completeRecord .little) ((pcapFile rs).drop 24) = (rs, none) := by
  have hread := readLoop_flatMap (consuming_completeRecord .little) rfl fun r hr =>
    completeRecord_bytes .little (h r hr)
  rw [pcapFile_drop, hread, List.map_id']

theorem flowRecords_records : flowRecords .little (pcapFile rs) = rs.map Record.data := by
  rw [flowRecords, readLoop_records h]

theorem replayRecords_records :
    replayRecords .little (pcapFile rs) =
      (rs.map fun r => ⟨r.tsSec, r.tsFrac, 1000000000, r.data.length, r.data.length, r.data⟩, none) := by
  simp only [replayRecords, pcapFile_take, decode_magic, globalHeader_length, Nat.lt_irrefl, if_false]
  rw [pcapFile_drop]
  exact readLoop_flatMap (consuming_replayTurn .little _) rfl fun r hr => replayTurn_bytes .little _ (h r hr)

end

/-! ### Reordering -/

/-- The times of records, compared as pairs of seconds and fractions. -/
def timeLE (a b : Record) : Bool :=
  decide (a.tsSec < b.tsSec ∨ a.tsSec = b.tsSec ∧ a.tsFrac ≤ b.tsFrac)

theorem keyLE_eq : keyLE = List.zipIdxLE timeLE := by
  funext a b
  simp only [keyLE, List.zipIdxLE, timeLE]
  grind

theorem packRecords {e : Endian} {rs : List (Record × Nat)} (h : ∀ r ∈ rs, r.1.Fits) :
    (rs.mapM fun r => packRecord e r.1.tsSec r.1.tsFrac r.1.data) = some (rs.map fun r => r.1.bytes e) := by
  induction rs with
  | nil => rfl
  | cons r rs ih =>
    rw [List.mapM_cons, packRecord_of_fits e (h r List.mem_cons_self),
      ih fun r' hr' => h r' (List.mem_cons_of_mem r hr')]
    rfl

/-- The byte order and the records `_sort_pcap_by_timestamp` decodes, in the order of the file. -/
def sorterRecords (host : Endian) (file : Bytes) : Option (Endian × List Record) :=
  let header := file.take 24
  if header.length < 24 then none
  else (magicEndian (decode host (header.take 4))).map fun e => (e, (readLoop (completeRecord e) (file.drop 24)).1)

theorem unpackHeader_lt (e : Endian) (hdr : Bytes) :
    (unpackHeader e hdr).tsSec < 256 ^ 4 ∧ (unpackHeader e hdr).tsFrac < 256 ^ 4 ∧
      (unpackHeader e hdr).inclLen < 256 ^ 4 ∧ (unpackHeader e hdr).origLen < 256 ^ 4 := by
  have hfield (i j : Nat) (hij : j - i = 4) : decode e (slice hdr i j) < 256 ^ 4 := by
    have hlt := decode_lt e (slice hdr i j)
    have hlen : (slice hdr i j).length ≤ 4 := by rw [slice_length, hij]; omega
    exact Nat.lt_of_lt_of_le hlt (Nat.pow_le_pow_right (by decide) hlen)
  exact ⟨hfield 0 4 rfl, hfield 4 8 rfl, hfield 8 12 rfl, hfield 12 16 rfl⟩

theorem fits_of_completeRecord {e : Endian} {s rest : Bytes} {r : Record} (h : completeRecord e s = .item r rest) :
    r.Fits := by
  obtain ⟨hsec, hfrac, hlen, -⟩ := unpackHeader_lt e (s.take 16)
  simp only [completeRecord] at h
  split at h
  · cases h
  · split at h
    · cases h
    · cases h
      refine ⟨hsec, hfrac, ?_⟩
      rw [List.length_take]
      exact Nat.lt_of_le_of_lt (Nat.min_le_left ..) hlen

/-- **Reordering sorts by time** what it decodes, keeps the order of equal times, and does not fail. -/
theorem sortPcapByTimestamp_eq (host : Endian) (file : Bytes) :
    sortPcapByTimestamp host file =
      match sorterRecords host file with
      | none => (file, true)
      | some (e, rs) => (file.take 24 ++ (rs.mergeSort timeLE).flatMap (Record.bytes e), true) := by
  simp only [sortPcapByTimestamp, sorterRecords]
  split
  · rfl
  · cases hmagic : magicEndian (decode host ((file.take 24).take 4)) with
    | none => rfl
    | some e =>
      have hsorted : ((readLoop (completeRecord e) (file.drop 24)).1.zipIdx.mergeSort keyLE).map Prod.fst =
          (readLoop (completeRecord e) (file.drop 24)).1.mergeSort timeLE := by
        rw [keyLE_eq, List.mergeSort_zipIdx]
      have hfits : ∀ r ∈ (readLoop (completeRecord e) (file.drop 24)).1.zipIdx.mergeSort keyLE, r.1.Fits := by
        intro r hr
        rw [List.mem_mergeSort] at hr
        exact forall_mem_readLoop (fun s r rest h => fits_of_completeRecord h) _ r.1 (List.fst_mem_of_mem_zipIdx hr)
      simp only [packRecords hfits, Option.map_some]
      rw [← hsorted, List.flatMap_map, List.flatMap_def]

theorem sortPcapByTimestamp_records {rs : List Record} (h : ∀ r ∈ rs, r.Fits) :
    sortPcapByTimestamp .little (pcapFile rs) = (pcapFile (rs.mergeSort timeLE), true) := by
  have hdecoded : sorterRecords .little (pcapFile rs) = some (.little, rs) := by
    have hendian : magicEndian pcapMagicNsLe = some .little := rfl
    simp only [sorterRecords, pcapFile_take, decode_magic, globalHeader_length, Nat.lt_irrefl, if_false, hendian,
      readLoop_records h, Option.map_some]
  rw [sortPcapByTimestamp_eq, hdecoded, pcapFile_take]
  rfl

end SocketServer.Capture
