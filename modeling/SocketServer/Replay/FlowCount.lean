import SocketServer.Replay.Direction
import Mathlib.Data.Finset.Card

/-!
# Counting flows (`flow_count` of `replayer.py`)

`get_direction` makes an entry for each direction of a flow and counts an entry when that of the other direction is not
there. A flow is the class of a key and its reverse, which may be the same key.

* `flowCount_getDirection` : a packet adds its flow to those that were counted;
* `track_spec` : a direction is given to each key once, the table holds the keys seen, and their flows are counted.
-/

namespace SocketServer.Replay

/-- A flow: a key and its reverse. -/
def FiveTuple.flow (key : FiveTuple) : Finset FiveTuple := {key, key.reversed}

/-- The flows of the packets. -/
def flowsSeen (packets : List FlowPacket) : Finset (Finset FiveTuple) :=
  (packets.map fun p => p.key.flow).toFinset

/-- The direction that `get_direction` returns for a packet after these packets. -/
def Hints.returned (hints : Hints) (seen : List FlowPacket) (p : FlowPacket) : Direction :=
  (hints.getDirection (hints.track seen) p.key p.proto p.flags).1

/-! ### The entries stay -/

theorem lookup_getDirection_self (hints : Hints) (s : Flows) (key : FiveTuple) (proto flags : Nat) :
    ((hints.getDirection s key proto flags).2.flowTable.lookup key).map FlowInfo.direction =
      some (hints.getDirection s key proto flags).1 := by
  rcases hkey : s.flowTable.lookup key with _ | flow
  · rw [getDirection_of_none hints hkey, AList.lookup_insert, Hints.getDirection, hkey]
    rfl
  · rw [getDirection_of_some hints hkey, hkey]
    rfl

theorem lookup_getDirection {hints : Hints} {s : Flows} {k : FiveTuple} {flow : FlowInfo}
    (h : s.flowTable.lookup k = some flow) (key : FiveTuple) (proto flags : Nat) :
    (hints.getDirection s key proto flags).2.flowTable.lookup k = some flow := by
  rcases hkey : s.flowTable.lookup key with _ | flow'
  · have hne : k ≠ key := by
      rintro rfl
      rw [hkey] at h
      cases h
    rw [getDirection_of_none hints hkey, AList.lookup_insert_ne hne, h]
  · rw [getDirection_of_some hints hkey, h]

theorem lookup_track_append {hints : Hints} {seen : List FlowPacket} {k : FiveTuple} {flow : FlowInfo}
    (h : (hints.track seen).flowTable.lookup k = some flow) (rest : List FlowPacket) :
    (hints.track (seen ++ rest)).flowTable.lookup k = some flow := by
  induction rest using List.reverseRecOn with
  | nil => rwa [List.append_nil]
  | append_singleton rest p ih =>
    rw [← List.append_assoc, track_append]
    exact lookup_getDirection ih p.key p.proto p.flags

/-- What is returned for a packet of a run is what the table holds in the end. -/
theorem lookup_track_of_prefix (hints : Hints) {seen packets : List FlowPacket} {p : FlowPacket}
    (h : seen ++ [p] <+: packets) :
    ((hints.track packets).flowTable.lookup p.key).map FlowInfo.direction = some (hints.returned seen p) := by
  obtain ⟨rest, rfl⟩ := h
  have hentry := lookup_getDirection_self hints (hints.track seen) p.key p.proto p.flags
  obtain ⟨flow, hflow, hdirection⟩ := Option.map_eq_some_iff.mp hentry
  rw [← track_append] at hflow
  rw [lookup_track_append hflow rest, Option.map_some, hdirection]
  rfl

/-! ### The count -/

theorem FiveTuple.flow_eq_iff {key key' : FiveTuple} : key.flow = key'.flow ↔ key = key' ∨ key = key'.reversed := by
  constructor
  · intro h
    have hmem : key ∈ key'.flow := h ▸ Finset.mem_insert_self ..
    rwa [FiveTuple.flow, Finset.mem_insert, Finset.mem_singleton] at hmem
  · rintro (rfl | rfl)
    · rfl
    · exact Finset.pair_comm ..

theorem mem_flowsSeen {packets : List FlowPacket} {key : FiveTuple} :
    key.flow ∈ flowsSeen packets ↔ (∃ q ∈ packets, q.key = key) ∨ ∃ q ∈ packets, q.key = key.reversed := by
  simp only [flowsSeen, List.mem_toFinset, List.mem_map, FiveTuple.flow_eq_iff]
  constructor
  · rintro ⟨q, hq, h | h⟩
    · exact .inl ⟨q, hq, h⟩
    · exact .inr ⟨q, hq, h⟩
  · rintro (⟨q, hq, h⟩ | ⟨q, hq, h⟩)
    · exact ⟨q, hq, .inl h⟩
    · exact ⟨q, hq, .inr h⟩

theorem flowsSeen_append (seen : List FlowPacket) (p : FlowPacket) :
    flowsSeen (seen ++ [p]) = insert p.key.flow (flowsSeen seen) := by
  ext flow
  simp only [flowsSeen, List.map_append, List.map_cons, List.map_nil, List.toFinset_append, List.toFinset_cons,
    List.toFinset_nil, Finset.mem_union, Finset.mem_insert, Finset.notMem_empty, or_false]
  exact or_comm

theorem getDirection_flowCount_of_none (hints : Hints) {s : Flows} {key : FiveTuple}
    (h : s.flowTable.lookup key = none) (proto flags : Nat) :
    (hints.getDirection s key proto flags).2.flowCount =
      if (s.flowTable.lookup key.reversed).isNone then s.flowCount + 1 else s.flowCount := by
  rw [Hints.getDirection, h]

/-- **One packet** adds its flow: it is counted when neither of its directions was seen. -/
theorem flowCount_getDirection (hints : Hints) {seen : List FlowPacket} (p : FlowPacket)
    (h : (hints.track seen).flowCount = (flowsSeen seen).card) :
    (hints.track (seen ++ [p])).flowCount = (flowsSeen (seen ++ [p])).card := by
  have hkey := lookup_track_eq_some_iff hints seen p.key
  have hreversed := lookup_track_eq_some_iff hints seen p.key.reversed
  rw [track_append, flowsSeen_append]
  rcases hlookup : (hints.track seen).flowTable.lookup p.key with _ | flow
  · have hfresh : ¬ ∃ q ∈ seen, q.key = p.key := by
      rw [← hkey, hlookup]
      simp
    rw [getDirection_flowCount_of_none hints hlookup]
    rcases hother : (hints.track seen).flowTable.lookup p.key.reversed with _ | flow
    · have hnew : p.key.flow ∉ flowsSeen seen := by
        rw [mem_flowsSeen, not_or, ← hreversed, hother]
        exact ⟨hfresh, by simp⟩
      rw [Finset.card_insert_of_notMem hnew, h]
      rfl
    · have hseen : p.key.flow ∈ flowsSeen seen := mem_flowsSeen.mpr (.inr (hreversed.mp ⟨flow, hother⟩))
      rw [Finset.insert_eq_of_mem hseen, h]
      rfl
  · have hseen : p.key.flow ∈ flowsSeen seen := mem_flowsSeen.mpr (.inl (hkey.mp ⟨flow, hlookup⟩))
    rw [getDirection_of_some hints hlookup, Finset.insert_eq_of_mem hseen, h]

theorem flowCount_track (hints : Hints) (packets : List FlowPacket) :
    (hints.track packets).flowCount = (flowsSeen packets).card := by
  induction packets using List.reverseRecOn with
  | nil => rfl
  | append_singleton seen p ih => exact flowCount_getDirection hints p ih

/-- **A run of `get_direction`**, of any packets: what is returned for a key is the same at each of its packets, the
table holds exactly the keys seen, and the count is the number of flows, those of a key that is its own reverse
included. -/
theorem track_spec (hints : Hints) (packets : List FlowPacket) :
    (∀ seen p seen' p', seen ++ [p] <+: packets → seen' ++ [p'] <+: packets → p.key = p'.key →
        hints.returned seen p = hints.returned seen' p') ∧
      (∀ key, key ∈ (hints.track packets).flowTable ↔ ∃ p ∈ packets, p.key = key) ∧
      (hints.track packets).flowCount = (flowsSeen packets).card := by
  refine ⟨fun seen p seen' p' hseen hseen' hkey => ?_, fun key => ?_, flowCount_track hints packets⟩
  · have hfirst := lookup_track_of_prefix hints hseen
    have hsecond := lookup_track_of_prefix hints hseen'
    rw [hkey, hsecond] at hfirst
    exact (Option.some.inj hfirst).symm
  · rw [← lookup_track_eq_some_iff hints, ← AList.lookup_isSome, Option.isSome_iff_exists]

end SocketServer.Replay
