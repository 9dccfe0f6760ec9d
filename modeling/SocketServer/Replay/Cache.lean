import SocketServer.Capture.Pcap

/-!
# The pcap cache of the replayer

`PcapReplayer` writes the packets it sends to a pcap file of its own (`_write_pcap_global_header`,
`_write_pcap_packet`), in network byte order. The three readers of the program choose their byte order in different
ways: `replay_file` and `extract_pcap_flow_five_tuples` take the host's, `_sort_pcap_by_timestamp` goes by the magic
number.

* `sorterRecords_cache` : the sorter decodes every cache file;
* `flowRecords_cache_iff` : the flow extraction decodes the files whose lengths are the same in either byte order;
* `readersAgree_iff` : these are the files that all three decode.
-/

namespace SocketServer.Replay

open Bytes Capture

/-! ### Writing (`replayer.py`) -/

/-- A packet that is written, with `int(timestamp)` and `int((timestamp - ts_sec) * 1_000_000)`. -/
structure CachedPacket where
  packetData : Bytes
  tsSec : Nat
  tsUsec : Nat
  deriving DecidableEq, Repr

/-- `_write_pcap_global_header`. -/
def writePcapGlobalHeader : Bytes :=
  encode .big 4 0xA1B2C3D4 ++ encode .big 2 2 ++ encode .big 2 4 ++ encode .big 4 0 ++ encode .big 4 0 ++
    encode .big 4 65535 ++ encode .big 4 1

/-- The file after `_write_pcap_packet`; `none` is a number that does not fit its field. -/
def writePcapPacket (f : Bytes) (p : CachedPacket) : Option Bytes := do
  let record ← packRecord .big p.tsSec p.tsUsec p.packetData
  some (f ++ record)

/-- The file after the global header and these packets. -/
def cacheFile (packets : List CachedPacket) : Option Bytes := packets.foldlM writePcapPacket writePcapGlobalHeader

/-- Each of the three readers decodes, on a little-endian host, these frames. -/
structure ReadersAgree (file : Bytes) (frames : List Bytes) : Prop where
  replay : (replayRecords .little file).1.map ReplayRecord.pktData = frames
  replayEnds : (replayRecords .little file).2 = none
  flow : flowRecords .little file = frames
  sorter : ∃ e rs, sorterRecords .little file = some (e, rs) ∧ (rs.map Record.data).Perm frames

/-! ### What is written -/

def CachedPacket.record (p : CachedPacket) : Record := ⟨p.tsSec, p.tsUsec, p.packetData⟩

theorem writePcapPacket_of_fits {p : CachedPacket} (h : p.record.Fits) (f : Bytes) :
    writePcapPacket f p = some (f ++ p.record.bytes .big) := by
  have hpack : packRecord .big p.tsSec p.tsUsec p.packetData = some (p.record.bytes .big) := packRecord_of_fits .big h
  rw [writePcapPacket, hpack]
  rfl

theorem writePcapPacket_eq_some {f file : Bytes} {p : CachedPacket} (h : writePcapPacket f p = some file) :
    p.record.Fits ∧ file = f ++ p.record.bytes .big := by
  have hfits : p.record.Fits := by
    simp only [writePcapPacket, packRecord, pack] at h
    split_ifs at h with hsec hfrac hlen
    · exact ⟨hsec, hfrac, hlen⟩
    all_goals cases h
  rw [writePcapPacket_of_fits hfits] at h
  exact ⟨hfits, (Option.some.inj h).symm⟩

theorem cacheFile_eq_some {packets : List CachedPacket} {file : Bytes} (h : cacheFile packets = some file) :
    (∀ r ∈ packets.map CachedPacket.record, r.Fits) ∧
      file = writePcapGlobalHeader ++ (packets.map CachedPacket.record).flatMap (Record.bytes .big) := by
  rw [cacheFile] at h
  generalize writePcapGlobalHeader = f at h ⊢
  induction packets generalizing f with
  | nil =>
    obtain rfl := Option.some.inj h
    exact ⟨nofun, by rw [List.map_nil, List.flatMap_nil, List.append_nil]⟩
  | cons p packets ih =>
    rw [List.foldlM_cons] at h
    obtain ⟨f', hp, hrest⟩ := Option.bind_eq_some_iff.mp h
    obtain ⟨hfits, rfl⟩ := writePcapPacket_eq_some hp
    obtain ⟨hall, rfl⟩ := ih _ hrest
    refine ⟨List.forall_mem_cons.mpr ⟨hfits, hall⟩, ?_⟩
    rw [List.map_cons, List.flatMap_cons, List.append_assoc]

theorem cacheFile_of_fits {packets : List CachedPacket} (h : ∀ p ∈ packets, p.record.Fits) :
    ∃ file, cacheFile packets = some file := by
  rw [cacheFile]
  generalize writePcapGlobalHeader = f
  induction packets generalizing f with
  | nil => exact ⟨f, rfl⟩
  | cons p packets ih =>
    have hp := writePcapPacket_of_fits (h p List.mem_cons_self) f
    obtain ⟨file, hfile⟩ := ih (fun q hq => h q (List.mem_cons_of_mem p hq)) (f ++ p.record.bytes .big)
    refine ⟨file, ?_⟩
    rw [List.foldlM_cons, hp]
    exact hfile

/-! ### Records in the other byte order -/

/-- The number whose four bytes are those of `n` reversed. -/
def swapBytes (n : Nat) : Nat := decode .little (encode .big 4 n)

theorem swapBytes_lt (n : Nat) : swapBytes n < 256 ^ 4 := by
  have h := decode_lt .little (encode .big 4 n)
  rwa [encode_length] at h

theorem encode_big (n : Nat) : encode .big 4 n = encode .little 4 (swapBytes n) := by
  have h := encode_decode .little (encode .big 4 n)
  rw [encode_length] at h
  exact h.symm

theorem headerBytes_big (tsSec tsFrac n : Nat) :
    headerBytes .big tsSec tsFrac n = headerBytes .little (swapBytes tsSec) (swapBytes tsFrac) (swapBytes n) := by
  rw [headerBytes, headerBytes, encode_big tsSec, encode_big tsFrac, encode_big n]

theorem completeRecord_big (r : Record) (s : Bytes) :
    completeRecord .little (r.bytes .big ++ s) =
      if (r.data ++ s).length < swapBytes r.data.length then .stop
      else .item ⟨swapBytes r.tsSec, swapBytes r.tsFrac, (r.data ++ s).take (swapBytes r.data.length)⟩
        ((r.data ++ s).drop (swapBytes r.data.length)) := by
  have hread := unpackHeader_headerBytes (e := .little) (swapBytes_lt r.tsSec) (swapBytes_lt r.tsFrac)
    (swapBytes_lt r.data.length)
  have hshort : min (swapBytes r.data.length) (r.data ++ s).length < swapBytes r.data.length ↔
      (r.data ++ s).length < swapBytes r.data.length := by omega
  simp only [completeRecord, r.take_bytes, r.drop_bytes, headerBytes_length, Nat.lt_irrefl, if_false, headerBytes_big,
    hread, ← List.drop_drop, List.length_take, hshort]

theorem replayTurn_big (divisor : Nat) (r : Record) (s : Bytes) :
    replayTurn .little divisor (r.bytes .big ++ s) =
      .item ⟨swapBytes r.tsSec, swapBytes r.tsFrac, divisor, swapBytes r.data.length, swapBytes r.data.length,
        (r.data ++ s).take (swapBytes r.data.length)⟩ ((r.data ++ s).drop (swapBytes r.data.length)) := by
  have hread := unpackHeader_headerBytes (e := .little) (swapBytes_lt r.tsSec) (swapBytes_lt r.tsFrac)
    (swapBytes_lt r.data.length)
  have hne : headerBytes .little (swapBytes r.tsSec) (swapBytes r.tsFrac) (swapBytes r.data.length) ≠ [] :=
    List.ne_nil_of_length_pos (by rw [headerBytes_length]; decide)
  simp only [replayTurn, r.take_bytes, r.drop_bytes, headerBytes_length, Nat.lt_irrefl, if_false, headerBytes_big,
    hread, ← List.drop_drop, hne]

/-! ### What is read -/

/-- The lengths are the same in either byte order. -/
def LengthsSwap (rs : List Record) : Prop := ∀ r ∈ rs, swapBytes r.data.length = r.data.length

/-- A record of such a length is a little-endian record at another time. -/
def Record.swapped (r : Record) : Record := ⟨swapBytes r.tsSec, swapBytes r.tsFrac, r.data⟩

theorem completeRecord_big_of_swap {r : Record} (h : swapBytes r.data.length = r.data.length) (s : Bytes) :
    completeRecord .little (r.bytes .big ++ s) = .item (Record.swapped r) s := by
  have hlong : ¬(r.data ++ s).length < r.data.length := by rw [List.length_append]; omega
  rw [completeRecord_big, h, if_neg hlong, List.take_left, List.drop_left]
  rfl

theorem replayTurn_big_of_swap {divisor : Nat} {r : Record} (h : swapBytes r.data.length = r.data.length) (s : Bytes) :
    replayTurn .little divisor (r.bytes .big ++ s) =
      .item ⟨swapBytes r.tsSec, swapBytes r.tsFrac, divisor, r.data.length, r.data.length, r.data⟩ s := by
  rw [replayTurn_big, h, List.take_left, List.drop_left]

/-- The little-endian loop finds the data of every record only where every length swaps. -/
theorem lengthsSwap_of_readLoop {rs : List Record}
    (h : (readLoop (completeRecord .little) (rs.flatMap (Record.bytes .big))).1.map Record.data = rs.map Record.data) :
    LengthsSwap rs := by
  induction rs with
  | nil => exact nofun
  | cons r rs ih =>
    rw [List.flatMap_cons, readLoop_eq (consuming_completeRecord .little), completeRecord_big] at h
    split_ifs at h with hshort
    · cases h
    · simp only [List.map_cons, List.cons.injEq] at h
      obtain ⟨hdata, hrest⟩ := h
      have hlen : swapBytes r.data.length = r.data.length := by
        have := congrArg List.length hdata
        rw [List.length_take] at this
        omega
      rw [hlen, List.drop_left] at hrest
      exact List.forall_mem_cons.mpr ⟨hlen, ih hrest⟩

/-! ### The readers of a cache file -/

theorem writePcapGlobalHeader_length : writePcapGlobalHeader.length = 24 := rfl

section

variable {packets : List CachedPacket} {file : Bytes} (h : cacheFile packets = some file)

include h

theorem cacheFile_take : file.take 24 = writePcapGlobalHeader := by
  rw [(cacheFile_eq_some h).2]
  exact List.take_left' writePcapGlobalHeader_length

theorem cacheFile_drop : file.drop 24 = (packets.map CachedPacket.record).flatMap (Record.bytes .big) := by
  rw [(cacheFile_eq_some h).2]
  exact List.drop_left' writePcapGlobalHeader_length

/-- **The sorter** takes the byte order from the magic number and decodes what was written. -/
theorem sorterRecords_cache : sorterRecords .little file = some (.big, packets.map CachedPacket.record) := by
  have hfits := (cacheFile_eq_some h).1
  have hendian : magicEndian (decode .little (writePcapGlobalHeader.take 4)) = some .big := rfl
  have hread := readLoop_flatMap (consuming_completeRecord .big) rfl fun r hr => completeRecord_bytes .big (hfits r hr)
  simp only [sorterRecords, cacheFile_take h, writePcapGlobalHeader_length, Nat.lt_irrefl, if_false, hendian,
    cacheFile_drop h, Option.map_some, hread, List.map_id']

/-- **The flow extraction** decodes what was written if and only if the lengths are the same in either byte order. -/
theorem flowRecords_cache_iff :
    flowRecords .little file = packets.map CachedPacket.packetData ↔
      LengthsSwap (packets.map CachedPacket.record) := by
  have hmap : packets.map CachedPacket.packetData = (packets.map CachedPacket.record).map Record.data := by
    rw [List.map_map]
    rfl
  rw [flowRecords, cacheFile_drop h, hmap]
  constructor
  · exact lengthsSwap_of_readLoop
  · intro hswap
    have hread := readLoop_flatMap (consuming_completeRecord .little) rfl fun r hr =>
      completeRecord_big_of_swap (hswap r hr)
    rw [hread, List.map_map]
    rfl

theorem replayRecords_cache (hswap : LengthsSwap (packets.map CachedPacket.record)) :
    (replayRecords .little file).1.map ReplayRecord.pktData = packets.map CachedPacket.packetData ∧
      (replayRecords .little file).2 = none := by
  have hread := readLoop_flatMap (consuming_replayTurn .little 1000000) rfl fun r hr =>
    replayTurn_big_of_swap (hswap r hr)
  have hdivisor : tsDivisor (decode .little (writePcapGlobalHeader.take 4)) = 1000000 := rfl
  simp only [replayRecords, cacheFile_take h, writePcapGlobalHeader_length, Nat.lt_irrefl, if_false, hdivisor,
    cacheFile_drop h, hread, and_true]
  rw [List.map_map, List.map_map]
  rfl

end

/-- **A cache file is read back** by the three readers if and only if the length of every packet is the same number in
either byte order. -/
theorem readersAgree_iff {packets : List CachedPacket} {file : Bytes} (h : cacheFile packets = some file) :
    ReadersAgree file (packets.map CachedPacket.packetData) ↔
      ∀ p ∈ packets, swapBytes p.packetData.length = p.packetData.length := by
  have hall : LengthsSwap (packets.map CachedPacket.record) ↔
      ∀ p ∈ packets, swapBytes p.packetData.length = p.packetData.length := List.forall_mem_map
  rw [← hall]
  constructor
  · intro hagree
    exact (flowRecords_cache_iff h).mp hagree.flow
  · intro hswap
    obtain ⟨hreplay, hends⟩ := replayRecords_cache h hswap
    refine ⟨hreplay, hends, (flowRecords_cache_iff h).mpr hswap, .big, packets.map CachedPacket.record,
      sorterRecords_cache h, ?_⟩
    rw [List.map_map]
    exact .refl _

/-- A packet of 65792 bytes, `00 01 01 00` in either order, and an empty one. -/
theorem readersAgree_palindrome :
    ∃ file, cacheFile [⟨List.replicate 65792 7, 1, 2⟩, ⟨[], 3, 4⟩] = some file ∧
      ReadersAgree file [List.replicate 65792 7, []] := by
  have hlen : (List.replicate 65792 (7 : UInt8)).length = 65792 := List.length_replicate
  have hfits : ∀ p ∈ [CachedPacket.mk (List.replicate 65792 7) 1 2, ⟨[], 3, 4⟩], p.record.Fits := by
    intro p hp
    simp only [List.mem_cons, List.not_mem_nil, or_false] at hp
    rcases hp with rfl | rfl
    · exact ⟨by decide, by decide, by simp only [CachedPacket.record, hlen]; decide⟩
    · exact ⟨by decide, by decide, by decide⟩
  obtain ⟨file, hfile⟩ := cacheFile_of_fits hfits
  refine ⟨file, hfile, (readersAgree_iff hfile).mpr ?_⟩
  intro p hp
  simp only [List.mem_cons, List.not_mem_nil, or_false] at hp
  rcases hp with rfl | rfl
  · simp only [hlen]
    decide
  · decide

/-- Two packets of one byte: the first length is read as `2 ^ 24`, and swallows the rest of the file. -/
theorem readersAgree_oneByte :
    ∃ file, cacheFile [⟨[7], 1, 2⟩, ⟨[8], 3, 4⟩] = some file ∧
      (replayRecords .little file).1.map ReplayRecord.pktData =
        [[7, 0, 0, 0, 3, 0, 0, 0, 4, 0, 0, 0, 1, 0, 0, 0, 1, 8]] ∧
      flowRecords .little file = [] ∧ ¬ReadersAgree file [[7], [8]] := by
  refine ⟨_, rfl, by decide +kernel, by decide +kernel, ?_⟩
  intro hagree
  exact absurd hagree.flow (by decide +kernel)

end SocketServer.Replay
