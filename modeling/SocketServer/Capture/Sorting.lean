import SocketServer.Capture.Pcap

/-!
# Reordering any file (`_sort_pcap_by_timestamp`)

Every file of at least 24 bytes is a global header, records that are complete, and a rest that does not begin with one:
a record that breaks off, or bytes that say they are longer than they are. The reordering decodes the complete records
and writes them back in the order of their times, with the length of the data as both lengths.

* `exists_rawRecords` : the complete records of a file;
* `stableSorted_mergeSort` : what a stable sort is, whatever the algorithm;
* `sortPcapByTimestamp_spec` : what the reordering leaves, and that a second one changes nothing.
-/

namespace SocketServer.Capture

open Bytes

/-! ### Records as other programs write them -/

/-- A record with a length of its own in the field `orig_len`. -/
structure RawRecord where
  tsSec : Nat
  tsFrac : Nat
  origLen : Nat
  data : Bytes
  deriving DecidableEq, Repr

structure RawRecord.Fits (r : RawRecord) : Prop where
  tsSec : r.tsSec < 256 ^ 4
  tsFrac : r.tsFrac < 256 ^ 4
  origLen : r.origLen < 256 ^ 4
  data : r.data.length < 256 ^ 4

instance (r : RawRecord) : Decidable r.Fits :=
  decidable_of_iff (_ ∧ _ ∧ _ ∧ _) ⟨fun ⟨h₁, h₂, h₃, h₄⟩ => ⟨h₁, h₂, h₃, h₄⟩, fun ⟨h₁, h₂, h₃, h₄⟩ => ⟨h₁, h₂, h₃, h₄⟩⟩

def RawRecord.header (e : Endian) (r : RawRecord) : Bytes :=
  encode e 4 r.tsSec ++ encode e 4 r.tsFrac ++ encode e 4 r.data.length ++ encode e 4 r.origLen

def RawRecord.bytes (e : Endian) (r : RawRecord) : Bytes := r.header e ++ r.data

/-- The record as the reordering keeps it. -/
def RawRecord.record (r : RawRecord) : Record := ⟨r.tsSec, r.tsFrac, r.data⟩

@[simp] theorem RawRecord.header_length (e : Endian) (r : RawRecord) : (r.header e).length = 16 := by
  simp [RawRecord.header]

theorem RawRecord.bytes_length (e : Endian) (r : RawRecord) : (r.bytes e).length = 16 + r.data.length := by
  rw [RawRecord.bytes, List.length_append, r.header_length]

theorem RawRecord.Fits.record {r : RawRecord} (h : r.Fits) : r.record.Fits := ⟨h.tsSec, h.tsFrac, h.data⟩

theorem unpackHeader_rawHeader (e : Endian) {r : RawRecord} (h : r.Fits) :
    unpackHeader e (r.header e) = ⟨r.tsSec, r.tsFrac, r.data.length, r.origLen⟩ := by
  have hsec := decode_encode_of_lt (e := e) h.tsSec
  have hfrac := decode_encode_of_lt (e := e) h.tsFrac
  have hlen := decode_encode_of_lt (e := e) h.data
  have horig := decode_encode_of_lt (e := e) h.origLen
  simp [unpackHeader, RawRecord.header, slice_append_left, slice_append_right, slice_all, hsec, hfrac, hlen, horig]

/-- Every sixteen bytes are the header of some record, but for its data. -/
theorem header_unpackHeader (e : Endian) {hdr : Bytes} (h : hdr.length = 16) :
    encode e 4 (unpackHeader e hdr).tsSec ++ encode e 4 (unpackHeader e hdr).tsFrac ++
      encode e 4 (unpackHeader e hdr).inclLen ++ encode e 4 (unpackHeader e hdr).origLen = hdr := by
  have hfield (i : Nat) (hi : i + 4 ≤ 16) : encode e 4 (decode e (slice hdr i (i + 4))) = slice hdr i (i + 4) := by
    have hlen : (slice hdr i (i + 4)).length = 4 := by rw [slice_length]; omega
    have hback := encode_decode e (slice hdr i (i + 4))
    rwa [hlen] at hback
  simp only [unpackHeader]
  rw [hfield 0 (by decide), hfield 4 (by decide), hfield 8 (by decide), hfield 12 (by decide),
    slice_append_slice hdr (by decide) (by decide), slice_append_slice hdr (by decide) (by decide),
    slice_append_slice hdr (by decide) (by decide), slice_all (by omega)]

theorem completeRecord_raw (e : Endian) {r : RawRecord} (h : r.Fits) (s : Bytes) :
    completeRecord e (r.bytes e ++ s) = .item r.record s := by
  have hread := unpackHeader_rawHeader e h
  have htake : (r.bytes e ++ s).take 16 = r.header e := by
    rw [RawRecord.bytes, List.append_assoc]
    exact List.take_left' (r.header_length e)
  have hdrop : (r.bytes e ++ s).drop 16 = r.data ++ s := by
    rw [RawRecord.bytes, List.append_assoc]
    exact List.drop_left' (r.header_length e)
  have hrest : (r.bytes e ++ s).drop (16 + r.data.length) = s := by rw [← List.drop_drop, hdrop, List.drop_left]
  have hdata : (r.data ++ s).take r.data.length = r.data := List.take_left
  simp only [completeRecord, htake, hdrop, r.header_length, hread, hrest, hdata, Nat.lt_irrefl, if_false]
  rfl

theorem exists_raw_of_completeRecord {e : Endian} {s rest : Bytes} {a : Record}
    (h : completeRecord e s = .item a rest) : ∃ r : RawRecord, r.Fits ∧ r.record = a ∧ s = r.bytes e ++ rest := by
  obtain ⟨hsec, hfrac, hlen, horig⟩ := unpackHeader_lt e (s.take 16)
  simp only [completeRecord] at h
  split at h
  · cases h
  · rename_i hlong
    have hsixteen : (s.take 16).length = 16 := by
      rw [List.length_take] at hlong ⊢
      omega
    have hheader := header_unpackHeader e hsixteen
    generalize unpackHeader e (s.take 16) = header at *
    split at h
    · cases h
    · cases h
      rename_i hcaptured
      have hdata : ((s.drop 16).take header.inclLen).length = header.inclLen := by
        rw [List.length_take] at hcaptured ⊢
        omega
      refine ⟨⟨header.tsSec, header.tsFrac, header.origLen, (s.drop 16).take header.inclLen⟩,
        ⟨hsec, hfrac, horig, by rw [hdata]; exact hlen⟩, rfl, ?_⟩
      rw [RawRecord.bytes, RawRecord.header, hdata, hheader, List.append_assoc, ← List.drop_drop,
        List.take_append_drop, List.take_append_drop]

/-! ### The complete records of a file -/

/-- A file body is these complete records and a rest that does not begin with one. -/
structure Decomposes (e : Endian) (body : Bytes) (rs : List RawRecord) (rest : Bytes) : Prop where
  fits : ∀ r ∈ rs, r.Fits
  body : body = rs.flatMap (RawRecord.bytes e) ++ rest
  stops : ∀ r : RawRecord, r.Fits → ¬ r.bytes e <+: rest

theorem completeRecord_of_stops {e : Endian} {rest : Bytes} (h : ∀ r : RawRecord, r.Fits → ¬ r.bytes e <+: rest) :
    completeRecord e rest = .stop := by
  cases hturn : completeRecord e rest with
  | stop => rfl
  | fail x => exact x.elim
  | item a tail =>
    obtain ⟨r, hfits, -, hrest⟩ := exists_raw_of_completeRecord hturn
    exact absurd ⟨tail, hrest.symm⟩ (h r hfits)

theorem Decomposes.readLoop {e : Endian} {body : Bytes} {rs : List RawRecord} {rest : Bytes}
    (h : Decomposes e body rs rest) : readLoop (completeRecord e) body = (rs.map RawRecord.record, none) := by
  have hread := readLoop_flatMap_append (consuming_completeRecord e)
    (fun r hr => completeRecord_raw e (h.fits r hr)) rest
  rw [h.body, hread, readLoop_eq (consuming_completeRecord e) rest, completeRecord_of_stops h.stops, List.append_nil]

/-- **The complete records** of a file body. -/
theorem exists_rawRecords (e : Endian) (body : Bytes) : ∃ rs rest, Decomposes e body rs rest := by
  induction hn : body.length using Nat.strongRecOn generalizing body with
  | ind n ih =>
    cases hturn : completeRecord e body with
    | stop =>
      refine ⟨[], body, nofun, rfl, ?_⟩
      rintro r hfits ⟨tail, htail⟩
      rw [← htail, completeRecord_raw e hfits] at hturn
      cases hturn
    | fail x => exact x.elim
    | item a tail =>
      have hshort := consuming_completeRecord e body a tail hturn
      obtain ⟨r, hfits, -, hbody⟩ := exists_raw_of_completeRecord hturn
      obtain ⟨rs, rest, hall, htail, hstops⟩ := ih tail.length (by omega) tail rfl
      refine ⟨r :: rs, rest, List.forall_mem_cons.mpr ⟨hfits, hall⟩, ?_, hstops⟩
      rw [List.flatMap_cons, List.append_assoc, ← htail, hbody]

/-! ### Sorting -/

/-- `out` is the stable sort of `rs` by time. -/
structure StableSorted (rs out : List Record) : Prop where
  perm : out.Perm rs
  sorted : out.Pairwise fun a b => timeLE a b = true
  stable : ∀ sec frac, out.filter (fun r => r.tsSec = sec ∧ r.tsFrac = frac) =
    rs.filter fun r => r.tsSec = sec ∧ r.tsFrac = frac

theorem timeLE_trans (a b c : Record) (hab : timeLE a b = true) (hbc : timeLE b c = true) : timeLE a c = true := by
  simp only [timeLE, decide_eq_true_eq] at *
  omega

theorem timeLE_total (a b : Record) : (timeLE a b || timeLE b a) = true := by
  simp only [timeLE, Bool.or_eq_true, decide_eq_true_eq]
  omega

theorem stableSorted_mergeSort (rs : List Record) : StableSorted rs (rs.mergeSort timeLE) := by
  have hperm := List.mergeSort_perm rs timeLE
  refine ⟨hperm, List.pairwise_mergeSort timeLE_trans timeLE_total rs, fun sec frac => ?_⟩
  -- The records of one time are a sublist that is in order, so the sort keeps it as a sublist.
  have hsublist : (rs.filter fun r => r.tsSec = sec ∧ r.tsFrac = frac).Sublist (rs.mergeSort timeLE) := by
    refine List.sublist_mergeSort timeLE_trans timeLE_total ?_ List.filter_sublist
    refine List.pairwise_of_forall_mem_list fun a ha b hb => ?_
    have ha' := (List.mem_filter.mp ha).2
    have hb' := (List.mem_filter.mp hb).2
    simp only [decide_eq_true_eq] at ha' hb'
    simp only [timeLE, decide_eq_true_eq]
    omega
  have hfiltered := hsublist.filter fun r => r.tsSec = sec ∧ r.tsFrac = frac
  rw [List.filter_filter] at hfiltered
  simp only [Bool.and_self] at hfiltered
  exact (hfiltered.eq_of_length (hperm.filter _).length_eq.symm).symm

/-! ### The file that is left -/

theorem sorterRecords_of_magic {file : Bytes} (hlen : 24 ≤ file.length) {e : Endian}
    (hmagic : magicEndian (decode .little (file.take 4)) = some e) :
    sorterRecords .little file = some (e, (readLoop (completeRecord e) (file.drop 24)).1) := by
  have hheader : ¬(file.take 24).length < 24 := by
    rw [List.length_take]
    omega
  have hfour : (file.take 24).take 4 = file.take 4 := by rw [List.take_take, Nat.min_eq_left (by decide)]
  simp only [sorterRecords, if_neg hheader, hfour, hmagic, Option.map_some]

theorem sortPcapByTimestamp_of_sorted {header : Bytes} (hlen : header.length = 24) {e : Endian}
    (hmagic : magicEndian (decode .little (header.take 4)) = some e) {rs : List Record} (hfits : ∀ r ∈ rs, r.Fits)
    (hsorted : rs.Pairwise fun a b => timeLE a b = true) :
    sortPcapByTimestamp .little (header ++ rs.flatMap (Record.bytes e)) =
      (header ++ rs.flatMap (Record.bytes e), true) := by
  have hread := readLoop_flatMap (consuming_completeRecord e) rfl fun r hr => completeRecord_bytes e (hfits r hr)
  have hfour : (header ++ rs.flatMap (Record.bytes e)).take 4 = header.take 4 :=
    List.take_append_of_le_length (by omega)
  rw [sortPcapByTimestamp_eq, sorterRecords_of_magic (by rw [List.length_append]; omega) (by rw [hfour, hmagic]),
    List.drop_left' hlen, hread, List.map_id', List.take_left' hlen]
  dsimp only
  rw [List.mergeSort_of_pairwise hsorted]

/-- **Reordering.** A file that is too short or has another magic number is left as it is. Any other file has complete
records, and becomes its global header and their stable sort, with the length of the data as both lengths. A second
reordering changes nothing. -/
theorem sortPcapByTimestamp_spec (file : Bytes) :
    (file.length < 24 ∨ magicEndian (decode .little (file.take 4)) = none →
        sortPcapByTimestamp .little file = (file, true)) ∧
      (∀ e, 24 ≤ file.length → magicEndian (decode .little (file.take 4)) = some e →
        (∃ rs rest, Decomposes e (file.drop 24) rs rest) ∧
          ∀ rs rest, Decomposes e (file.drop 24) rs rest → ∃ out, StableSorted (rs.map RawRecord.record) out ∧
            sortPcapByTimestamp .little file = (file.take 24 ++ out.flatMap (Record.bytes e), true)) ∧
      sortPcapByTimestamp .little (sortPcapByTimestamp .little file).1 = ((sortPcapByTimestamp .little file).1, true) := by
  have hkept (h : file.length < 24 ∨ magicEndian (decode .little (file.take 4)) = none) :
      sortPcapByTimestamp .little file = (file, true) := by
    have hfour : (file.take 24).take 4 = file.take 4 := by rw [List.take_take, Nat.min_eq_left (by decide)]
    have hnone : sorterRecords .little file = none := by
      simp only [sorterRecords, hfour]
      split_ifs with hshort
      · rfl
      · rcases h with h | h
        · rw [List.length_take] at hshort
          omega
        · rw [h]
          rfl
    rw [sortPcapByTimestamp_eq, hnone]
  have hsorts (e : Endian) (hlen : 24 ≤ file.length) (hmagic : magicEndian (decode .little (file.take 4)) = some e)
      {rs : List RawRecord} {rest : Bytes} (hbody : Decomposes e (file.drop 24) rs rest) :
      sortPcapByTimestamp .little file =
        (file.take 24 ++ ((rs.map RawRecord.record).mergeSort timeLE).flatMap (Record.bytes e), true) := by
    rw [sortPcapByTimestamp_eq, sorterRecords_of_magic hlen hmagic, hbody.readLoop]
  refine ⟨hkept, fun e hlen hmagic => ⟨exists_rawRecords e (file.drop 24), fun rs rest hbody => ?_⟩, ?_⟩
  · exact ⟨_, stableSorted_mergeSort _, hsorts e hlen hmagic hbody⟩
  · by_cases h : file.length < 24 ∨ magicEndian (decode .little (file.take 4)) = none
    · rw [hkept h, hkept h]
    · obtain ⟨hlen, hmagic⟩ := not_or.mp h
      obtain ⟨e, hmagic⟩ := Option.ne_none_iff_exists'.mp hmagic
      obtain ⟨rs, rest, hbody⟩ := exists_rawRecords e (file.drop 24)
      have hsorted := stableSorted_mergeSort (rs.map RawRecord.record)
      have htake : (file.take 24).length = 24 := by rw [List.length_take]; omega
      rw [hsorts e (by omega) hmagic hbody]
      refine sortPcapByTimestamp_of_sorted htake (by rw [List.take_take]; exact hmagic) (fun r hr => ?_) hsorted.sorted
      obtain ⟨raw, hraw, rfl⟩ := List.mem_map.mp (hsorted.perm.mem_iff.mp hr)
      exact (hbody.fits raw hraw).record

end SocketServer.Capture
