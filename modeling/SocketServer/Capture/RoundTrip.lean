import SocketServer.Capture.Pcap

/-!
# Frames through a capture file

A capture restores the VLAN tags, writes a file and reorders it; a replay or a flow extraction reads the file.
`captured_sorted_read` : what is read is the list of frames that were on the wire, sorted by time.
-/

namespace SocketServer.Capture

open Bytes

/-- A frame on the wire and its time in nanoseconds. -/
structure Sent where
  frame : Bytes
  tsNs : Nat
  deriving DecidableEq, Repr

/-- The socket delivers this frame at this time, which is less than `2 ^ 32` seconds. -/
structure Delivered (host : Endian) (s : Sent) (d : Delivery) : Prop where
  kernel : KernelDelivers host s.frame d.data d.ancdata
  time : d.tsNs = s.tsNs
  recent : s.tsNs < 2 ^ 32 * 1000000000

def Sent.record (s : Sent) : Record := ⟨s.tsNs / 1000000000, s.tsNs % 1000000000, s.frame⟩

/-- The frame as `replay_file` reads it. -/
def Sent.replayed (s : Sent) : ReplayRecord :=
  ⟨s.tsNs / 1000000000, s.tsNs % 1000000000, 1000000000, s.frame.length, s.frame.length, s.frame⟩

/-- Frames in the order of their times. -/
def inOrder (sent : List Sent) : List Sent := sent.mergeSort fun a b => a.tsNs ≤ b.tsNs

theorem KernelDelivers.length_le {host : Endian} {frame data : Bytes} {ancdata : List Cmsg}
    (h : KernelDelivers host frame data ancdata) : frame.length ≤ 65539 := by
  cases h with
  | untagged long short plain => omega
  | tagged hmacs short fits valid tpidValid htci htpid only =>
    simp only [List.length_append, vlanTag_length]
    omega

theorem Delivered.fits {host : Endian} {s : Sent} {d : Delivery} (h : Delivered host s d) : s.record.Fits := by
  have hlen := h.kernel.length_le
  have htime := h.recent
  have hsec : s.tsNs / 1000000000 < 256 ^ 4 := by omega
  have hfrac : s.tsNs % 1000000000 < 256 ^ 4 := by omega
  have hdata : s.frame.length < 256 ^ 4 := by omega
  exact ⟨hsec, hfrac, hdata⟩

theorem writePacket_delivered {host : Endian} {s : Sent} {d : Delivery} (h : Delivered host s d) (f : Bytes) :
    writePacket f (restoreVlan host d.data d.ancdata) d.tsNs = some (f ++ s.record.bytes .little) := by
  have hpack : packRecord .little (s.tsNs / 1000000000) (s.tsNs % 1000000000) s.frame =
      some (s.record.bytes .little) := packRecord_of_fits .little h.fits
  rw [writePacket, restoreVlan_delivered host h.kernel, h.time, hpack]
  rfl

theorem foldlM_writePacket {host : Endian} {sent : List Sent} {deliveries : List Delivery}
    (h : List.Forall₂ (Delivered host) sent deliveries) (f : Bytes) :
    (deliveries.foldlM (fun f d => writePacket f (restoreVlan host d.data d.ancdata) d.tsNs) f) =
      some (f ++ (sent.map Sent.record).flatMap (Record.bytes .little)) := by
  induction h generalizing f with
  | nil => rw [List.map_nil, List.flatMap_nil, List.append_nil]; rfl
  | cons hd _ ih =>
    rw [List.foldlM_cons, writePacket_delivered hd, Option.bind_eq_bind, Option.bind_some, ih, List.map_cons,
      List.flatMap_cons, List.append_assoc]

theorem captureFile_eq {host : Endian} {sent : List Sent} {deliveries : List Delivery}
    (h : List.Forall₂ (Delivered host) sent deliveries) :
    captureFile host deliveries = some (pcapFile (sent.map Sent.record)) :=
  foldlM_writePacket h globalHeader

theorem timeLE_record (a b : Sent) : decide (a.tsNs ≤ b.tsNs) = timeLE a.record b.record := by
  rw [timeLE, decide_eq_decide]
  simp only [Sent.record]
  omega

theorem mergeSort_record (sent : List Sent) :
    (sent.map Sent.record).mergeSort timeLE = (inOrder sent).map Sent.record :=
  (List.map_mergeSort fun a _ b _ => timeLE_record a b).symm

theorem fits_of_delivered {host : Endian} {sent : List Sent} {deliveries : List Delivery}
    (h : List.Forall₂ (Delivered host) sent deliveries) : ∀ r ∈ sent.map Sent.record, r.Fits := by
  induction h with
  | nil => intro r hr; cases hr
  | cons hd _ ih =>
    intro r hr
    rcases List.mem_cons.mp hr with rfl | hr
    · exact hd.fits
    · exact ih r hr

/-- **Capture, reorder, read**: both readers of the reordered file read the frames that were on the wire, tags
included, stably sorted by time; the replayer reads their times and lengths too, and no error. -/
theorem captured_sorted_read {sent : List Sent} {deliveries : List Delivery}
    (h : List.Forall₂ (Delivered .little) sent deliveries) :
    ∃ file sorted, captureFile .little deliveries = some file ∧ sortPcapByTimestamp .little file = (sorted, true) ∧
      replayRecords .little sorted = ((inOrder sent).map Sent.replayed, none) ∧
      flowRecords .little sorted = (inOrder sent).map Sent.frame := by
  have hfits := fits_of_delivered h
  have hfits' : ∀ r ∈ (inOrder sent).map Sent.record, r.Fits := by
    intro r hr
    rw [← mergeSort_record, List.mem_mergeSort] at hr
    exact hfits r hr
  refine ⟨pcapFile (sent.map Sent.record), pcapFile ((inOrder sent).map Sent.record), captureFile_eq h, ?_, ?_, ?_⟩
  · rw [sortPcapByTimestamp_records hfits, mergeSort_record]
  · rw [replayRecords_records hfits', List.map_map]
    rfl
  · rw [flowRecords_records hfits', List.map_map]
    rfl

/-- An untagged frame at 7 ns, then a frame of VLAN 5 that was received with an earlier time. -/
theorem captured_sorted_read_two :
    ∃ file sorted,
      captureFile .little
          [⟨List.replicate 14 1, [], 7⟩,
            ⟨List.replicate 12 2 ++ [8, 0, 69],
              [⟨1, 37, []⟩, auxdataMessage .little ⟨0x51, 15, 15, 0, 0, 5, 0x8100⟩], 3⟩] = some file ∧
        sortPcapByTimestamp .little file = (sorted, true) ∧
        replayRecords .little sorted =
          ([⟨0, 3, 1000000000, 19, 19, List.replicate 12 2 ++ [0x81, 0, 0, 5, 8, 0, 69]⟩,
            ⟨0, 7, 1000000000, 14, 14, List.replicate 14 1⟩], none) ∧
        flowRecords .little sorted = [List.replicate 12 2 ++ [0x81, 0, 0, 5, 8, 0, 69], List.replicate 14 1] := by
  have huntagged : Delivered .little ⟨List.replicate 14 1, 7⟩ ⟨List.replicate 14 1, [], 7⟩ :=
    ⟨.untagged (by decide) (by decide) nofun, rfl, by decide⟩
  have htagged : Delivered .little ⟨List.replicate 12 2 ++ vlanTag 0x8100 5 ++ [8, 0, 69], 3⟩
      ⟨List.replicate 12 2 ++ [8, 0, 69],
        [⟨1, 37, []⟩] ++ auxdataMessage .little ⟨0x51, 15, 15, 0, 0, 5, 0x8100⟩ :: [], 3⟩ :=
    ⟨.tagged rfl (by decide) ⟨by decide, by decide, by decide, by decide, by decide, by decide, by decide⟩
      (by decide) (by decide) rfl rfl (by decide), rfl, by decide⟩
  have hsorted : inOrder [⟨List.replicate 14 1, 7⟩, ⟨List.replicate 12 2 ++ vlanTag 0x8100 5 ++ [8, 0, 69], 3⟩] =
      [⟨List.replicate 12 2 ++ vlanTag 0x8100 5 ++ [8, 0, 69], 3⟩, ⟨List.replicate 14 1, 7⟩] := by
    simp [inOrder, List.mergeSort, List.MergeSort.Internal.splitInTwo]
  have hread := captured_sorted_read (.cons huntagged (.cons htagged .nil))
  rw [hsorted] at hread
  exact hread

end SocketServer.Capture
