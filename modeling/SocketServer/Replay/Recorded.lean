import SocketServer.Capture.RoundTrip
import SocketServer.Replay.Again

/-!
# From the wire to the wire

A capture takes frames from a packet socket, which keeps their VLAN tags apart, and reorders its file by time; a replay
reads the file and sends. Put together, what was on the wire when the capture ran says what the replay sends.

* `replayFiles_recorded` : a replay of a capture sends what the frames on the wire determine, in the order of their
  times, and sends them as they were where it changes nothing;
* `replayFiles_rerecorded` : a capture of such a replay may be replayed again, and two rewritings are one.
-/

namespace SocketServer.Replay

open Bytes Inet Capture

/-- The file of a capture after its reordering. -/
def recorded (deliveries : List Delivery) : Option Bytes :=
  (captureFile .little deliveries).map fun file => (sortPcapByTimestamp .little file).1

/-- Nothing is forced, and there are no VLANs. -/
structure Settings.Plain (c : Settings) : Prop where
  forced : c.noTupleModification = true
  uplinkVlan : c.uplinkVlan = none
  downlinkVlan : c.downlinkVlan = none

/-! ### One capture -/

/-- **What a replay reads of a capture**: the frames on the wire, in the order of their times. -/
theorem filesRecords_recorded {sent : List Sent} {deliveries : List Delivery}
    (h : List.Forall₂ (Delivered .little) sent deliveries) :
    filesRecords .little [recorded deliveries] = (inOrder sent).map Sent.replayed := by
  have hfits := fits_of_delivered h
  have hsorted : ∀ r ∈ (inOrder sent).map Sent.record, r.Fits := by
    intro r hr
    rw [← mergeSort_record, List.mem_mergeSort] at hr
    exact hfits r hr
  have hfile : recorded deliveries = some (pcapFile ((inOrder sent).map Sent.record)) := by
    rw [recorded, captureFile_eq h, Option.map_some, sortPcapByTimestamp_records hfits, mergeSort_record]
  rw [hfile, filesRecords, replayRecords_records hsorted, List.map_map]
  exact List.append_nil _

theorem frames_recorded {sent : List Sent} {deliveries : List Delivery}
    (h : List.Forall₂ (Delivered .little) sent deliveries) :
    (filesRecords .little [recorded deliveries]).map ReplayRecord.pktData = (inOrder sent).map Sent.frame := by
  rw [filesRecords_recorded h, List.map_map]
  rfl

theorem inOrder_of_pairwise {sent : List Sent} (h : sent.Pairwise fun x y => x.tsNs ≤ y.tsNs) : inOrder sent = sent :=
  List.mergeSort_of_pairwise (h.imp fun hle => decide_eq_true hle)

namespace Settings.Plain

variable {c : Settings} (hc : c.Plain)

include hc

theorem sentPacket (frame : Bytes) (flow : Option FlowInfo) (direction : Direction) :
    c.sentPacket frame flow direction = some frame := by
  unfold Replayer.sentPacket
  rw [modifyPacket_of_noTuple hc.forced]
  cases direction with
  | uplink => rw [hc.uplinkVlan]; rfl
  | downlink => rw [hc.downlinkVlan]; rfl

theorem replayed (frames : List Bytes) :
    (c.replayed frames).map Prod.snd = frames.filter fun frame => (flowPacket frame).isSome := by
  rw [Settings.replayed, List.map_filterMap, ← List.filterMap_eq_filter]
  refine List.filterMap_congr fun frame _ => ?_
  rw [wire]
  cases hp : flowPacket frame with
  | none => simp [Option.guard, hp]
  | some p => simp [Option.guard, hp, hc.sentPacket]

end Settings.Plain

/-- **Capture, reorder, replay.** Whatever order the frames are received in, and where the kernel reports a tag that it
strips with its TPID, a replay of the file of a capture gives the sockets what the frames on the wire determine, taken
in the order of their times, but for the sends that fail. Where the replay forces nothing and has no VLANs these are the
frames themselves, all those of IPv4 and IPv6 that it can parse. -/
theorem replayFiles_recorded (c : Settings) (stamp : ReplayRecord → Nat × Nat) (accepts : Nat → Bool)
    (writers : Writers) {sent : List Sent} {deliveries : List Delivery}
    (h : List.Forall₂ (Delivered .little) sent deliveries) :
    (c.replayFiles stamp accepts .little ⟨∅, 0⟩ writers [recorded deliveries]).1.sent =
        acceptedSends accepts (c.replayed ((inOrder sent).map Sent.frame)) ∧
      (c.Plain → (c.replayed ((inOrder sent).map Sent.frame)).map Prod.snd =
        ((inOrder sent).map Sent.frame).filter fun frame => (flowPacket frame).isSome) := by
  refine ⟨?_, fun hc => hc.replayed _⟩
  rw [replayFiles_replayed, frames_recorded h]

/-! ### A capture of a replay -/

/-- **Capture, replay, capture, replay.** A capture in which every frame that is parsed is as `CapturedFrame` says is
replayed to `b` in the name of `a` without VLANs, with all sends successful; the frames are captured again, with times
that do not go back, and replayed with the hints `a` and `b` and with any addresses of IPv4, ports and VLANs. The second
replay sends what one replay of the first capture sends with the fields of both. -/
theorem replayFiles_rerecorded {c c' : Settings} {a b : Str} (hbetween : c.Between a b) (hforced : c'.Ipv4Forced)
    (hhints : c'.hints = ⟨some a, some b⟩) (stamp stamp' : ReplayRecord → Nat × Nat) (accepts : Nat → Bool)
    (writers writers' : Writers) {sent sent' : List Sent} {deliveries deliveries' : List Delivery}
    (h : List.Forall₂ (Delivered .little) sent deliveries) (h' : List.Forall₂ (Delivered .little) sent' deliveries')
    (hframes : ∀ s ∈ sent, (flowPacket s.frame).isSome = true → CapturedFrame s.frame)
    (hwire : sent'.map Sent.frame =
      (c.replayFiles stamp (fun _ => true) .little ⟨∅, 0⟩ writers [recorded deliveries]).1.sent.map Prod.snd)
    (htimes : sent'.Pairwise fun x y => x.tsNs ≤ y.tsNs) :
    (c'.replayFiles stamp' accepts .little ⟨∅, 0⟩ writers' [recorded deliveries']).1.sent =
      ((c.merge c').replayFiles stamp accepts .little ⟨∅, 0⟩ writers [recorded deliveries]).1.sent := by
  have hfirst : (c.replayFiles stamp (fun _ => true) .little ⟨∅, 0⟩ writers [recorded deliveries]).1.sent =
      c.replayed ((inOrder sent).map Sent.frame) := by
    rw [replayFiles_replayed, frames_recorded h, acceptedSends_all]
  have hboth : c'.replayed ((c.replayed ((inOrder sent).map Sent.frame)).map Prod.snd) = _ :=
    hbetween.replayed_replayed hforced hhints fun f hf => by
      obtain ⟨s, hs, rfl⟩ := List.mem_map.mp hf
      exact hframes s (List.mem_mergeSort.mp hs)
  rw [replayFiles_replayed, frames_recorded h', inOrder_of_pairwise htimes, hwire, hfirst, hboth, replayFiles_replayed,
    frames_recorded h]

/-! ### The two frames of a conversation -/

/-- Frames that are delivered with no messages, as they came. -/
def untagged (sent : List Sent) : List Delivery := sent.map fun s => ⟨s.frame, [], s.tsNs⟩

theorem delivered_untagged {sent : List Sent}
    (h : ∀ s ∈ sent, 14 ≤ s.frame.length ∧ s.frame.length ≤ 65535 ∧ s.tsNs < 2 ^ 32 * 1000000000) :
    List.Forall₂ (Delivered .little) sent (untagged sent) := by
  induction sent with
  | nil => exact .nil
  | cons s sent ih =>
    obtain ⟨hlong, hshort, htime⟩ := h s List.mem_cons_self
    have hkernel : KernelDelivers .little s.frame s.frame [] := .untagged hlong hshort nofun
    exact .cons ⟨hkernel, rfl, htime⟩ (ih fun x hx => h x (List.mem_cons_of_mem _ hx))

/-- The answer is received before the packet that it answers. -/
def talkSent : List Sent := [⟨answerFrame, 7⟩, ⟨synFrame, 3⟩]

theorem inOrder_talk : inOrder talkSent = [⟨synFrame, 3⟩, ⟨answerFrame, 7⟩] := by
  simp [inOrder, talkSent, List.mergeSort, List.MergeSort.Internal.splitInTwo]

def plainSettings : Settings :=
  ⟨⟨none, none, none, none, none, none⟩, "eth0".toList, some "eth1".toList, false, ⟨none, none⟩⟩

theorem replayFiles_recorded_talk :
    (plainSettings.replayFiles (fun r => (r.tsSec, r.tsFrac)) (fun _ => true) .little ⟨∅, 0⟩ ⟨none, none, none⟩
      [recorded (untagged talkSent)]).1.sent.map Prod.snd = [synFrame, answerFrame] := by
  obtain ⟨hsent, hplain⟩ := replayFiles_recorded plainSettings (fun r => (r.tsSec, r.tsFrac)) (fun _ => true)
    ⟨none, none, none⟩ (delivered_untagged (show ∀ s ∈ talkSent, _ by decide +kernel))
  rw [hsent, acceptedSends_all, hplain ⟨rfl, rfl, rfl⟩, inOrder_talk]
  decide +kernel

/-- The frames of the first replay, one second after the other. -/
def talkSentAgain : List Sent :=
  (nineToEightSettings.replayed [synFrame, answerFrame]).zipIdx.map fun x => ⟨x.1.2, x.2 * 1000000000⟩

theorem replayFiles_rerecorded_talk :
    (portSettings.replayFiles (fun _ => (0, 0)) (fun _ => true) .little ⟨∅, 0⟩ ⟨none, none, none⟩
        [recorded (untagged talkSentAgain)]).1.sent =
      ((nineToEightSettings.merge portSettings).replayFiles (fun r => (r.tsSec, r.tsFrac)) (fun _ => true) .little
        ⟨∅, 0⟩ ⟨none, none, none⟩ [recorded (untagged talkSent)]).1.sent := by
  have htalk : List.Forall₂ (Delivered .little) talkSent (untagged talkSent) :=
    delivered_untagged (by decide +kernel)
  refine replayFiles_rerecorded nineToEight_between port_forced rfl (fun r => (r.tsSec, r.tsFrac)) _ _ _ _ htalk
    (delivered_untagged (by decide +kernel)) ?_ ?_ (by decide +kernel)
  · intro s hs _
    simp only [talkSent, List.mem_cons, List.not_mem_nil, or_false] at hs
    rcases hs with rfl | rfl
    · exact capturedFrame_answer
    · exact capturedFrame_syn
  · rw [replayFiles_replayed, frames_recorded htalk, inOrder_talk]
    decide +kernel

end SocketServer.Replay
