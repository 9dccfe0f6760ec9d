import SocketServer.Replay.Packet
import Mathlib.Data.List.AList
import Mathlib.Data.List.Induction

/-!
# The directions of flows (`get_direction` of `replayer.py`)

A flow is kept under its five-tuple, once for each direction it is seen in. The first packet of a direction decides
whether it is uplink or downlink, and the entry is never revised. The hints come first, then the SYN, and the entry of
the other direction is looked at only where neither says anything: with hints that do not match, nothing else is tried.

* `stored_getDirection` : where the direction of an entry comes from;
* `opposed_iff` : the two directions of every flow are opposite exactly when each second direction begins with a packet
  that the hints tell apart, or, without hints, that is no bare SYN.
-/

namespace SocketServer.Replay

open Bytes Inet

/-- The last field of a `FiveTuple`. -/
inductive Proto
  | tcp
  | udp
  | other
  deriving DecidableEq, Repr

structure FiveTuple where
  macSrc : Bytes
  macDst : Bytes
  ipSrc : Str
  ipDst : Str
  sport : Option Nat
  dport : Option Nat
  proto : Proto
  deriving DecidableEq, Repr

def getFiveTuple (eth : Ethernet) (ipSrc ipDst : Str) (sport dport : Option Nat) (proto : Nat) : FiveTuple :=
  ⟨eth.src, eth.dst, ipSrc, ipDst, sport, dport, if proto = 6 then .tcp else if proto = 17 then .udp else .other⟩

/-- `reversed_key`. -/
def FiveTuple.reversed (key : FiveTuple) : FiveTuple :=
  ⟨key.macDst, key.macSrc, key.ipDst, key.ipSrc, key.dport, key.sport, key.proto⟩

/-- `FlowInfo(direction, timestamp)`. -/
def FlowInfo.new (direction : Direction) : FlowInfo := ⟨direction, none, none, none, none, none⟩

abbrev FlowTable := AList fun _ : FiveTuple => FlowInfo

/-- The fields of a `PcapReplayer` that `get_direction` changes. -/
structure Flows where
  flowTable : FlowTable
  flowCount : Nat

/-- `client_ip_hint` and `server_ip_hint`. -/
structure Hints where
  clientIpHint : Option Str
  serverIpHint : Option Str
  deriving DecidableEq, Repr

/-- `self.client_ip_hint and self.server_ip_hint`. -/
def Hints.both (hints : Hints) : Option (Str × Str) :=
  (given hints.clientIpHint).bind fun client => (given hints.serverIpHint).map fun server => (client, server)

def Direction.opposite : Direction → Direction
  | .uplink => .downlink
  | .downlink => .uplink

/-- SYN without ACK. -/
def isSyn (proto flags : Nat) : Bool := proto = 6 ∧ flags &&& 0x02 ≠ 0 ∧ flags &&& 0x10 = 0

/-- The direction by the hints. Addresses that do not match them are logged, and the default stays. -/
def hintedDirection (client server : Str) (key : FiveTuple) : Direction :=
  if key.ipSrc = client ∧ key.ipDst = server then .uplink
  else if key.ipSrc = server ∧ key.ipDst = client then .downlink
  else .uplink

/-- The direction of a key that is not in the table. -/
def Hints.newDirection (hints : Hints) (table : FlowTable) (key : FiveTuple) (proto flags : Nat) : Direction :=
  match hints.both with
  | some (client, server) => hintedDirection client server key
  | none =>
    if isSyn proto flags then .uplink
    else
      match table.lookup key.reversed with
      | some flow => flow.direction.opposite
      | none => .uplink

def Hints.getDirection (hints : Hints) (s : Flows) (key : FiveTuple) (proto flags : Nat) : Direction × Flows :=
  match s.flowTable.lookup key with
  | some flow => (flow.direction, s)
  | none =>
    let direction := hints.newDirection s.flowTable key proto flags
    (direction,
      { flowTable := s.flowTable.insert key (.new direction)
        flowCount := if (s.flowTable.lookup key.reversed).isNone then s.flowCount + 1 else s.flowCount })

/-- What `get_direction` is given of a packet. -/
structure FlowPacket where
  key : FiveTuple
  proto : Nat
  flags : Nat
  deriving DecidableEq, Repr

/-- A run of `get_direction` from a fresh `PcapReplayer`. -/
def Hints.track (hints : Hints) (packets : List FlowPacket) : Flows :=
  packets.foldl (fun s p => (hints.getDirection s p.key p.proto p.flags).2) ⟨∅, 0⟩

/-! ### What a run should keep -/

/-- The two directions of a flow are opposite. -/
def Opposed (table : FlowTable) : Prop :=
  ∀ key flow flow', key.reversed ≠ key → table.lookup key = some flow → table.lookup key.reversed = some flow' →
    flow.direction ≠ flow'.direction

/-- A packet is the first one of the second direction of a flow, after these packets. -/
def FlowPacket.OpensSecond (p : FlowPacket) (seen : List FlowPacket) : Prop :=
  p.key.reversed ≠ p.key ∧ (∀ q ∈ seen, q.key ≠ p.key) ∧ ∃ q ∈ seen, q.key = p.key.reversed

/-- Its direction is found: the hints differ and are its two addresses, or there are none and it is no bare SYN. -/
def Hints.Tell (hints : Hints) (p : FlowPacket) : Prop :=
  match hints.both with
  | some (client, server) =>
    client ≠ server ∧
      (p.key.ipSrc = client ∧ p.key.ipDst = server ∨ p.key.ipSrc = server ∧ p.key.ipDst = client)
  | none => isSyn p.proto p.flags = false

/-! ### Keys and directions -/

theorem FiveTuple.reversed_reversed (key : FiveTuple) : key.reversed.reversed = key := rfl

theorem FiveTuple.reversed_eq_iff {key key' : FiveTuple} : key.reversed = key' ↔ key = key'.reversed := by
  constructor
  · rintro rfl
    rfl
  · rintro rfl
    rfl

/-- The hints tell a key from its reverse exactly when they differ and are its two addresses. -/
theorem hintedDirection_ne_iff {client server : Str} {key : FiveTuple} :
    hintedDirection client server key ≠ hintedDirection client server key.reversed ↔
      client ≠ server ∧ (key.ipSrc = client ∧ key.ipDst = server ∨ key.ipSrc = server ∧ key.ipDst = client) := by
  have hswap : hintedDirection client server key.reversed =
      if key.ipDst = client ∧ key.ipSrc = server then .uplink
      else if key.ipDst = server ∧ key.ipSrc = client then .downlink
      else .uplink := rfl
  rw [hswap, hintedDirection]
  generalize key.ipSrc = a
  generalize key.ipDst = b
  grind

/-! ### One packet -/

theorem getDirection_of_some (hints : Hints) {s : Flows} {key : FiveTuple} {flow : FlowInfo}
    (h : s.flowTable.lookup key = some flow) (proto flags : Nat) :
    hints.getDirection s key proto flags = (flow.direction, s) := by
  rw [Hints.getDirection, h]

theorem getDirection_of_none (hints : Hints) {s : Flows} {key : FiveTuple} (h : s.flowTable.lookup key = none)
    (proto flags : Nat) :
    (hints.getDirection s key proto flags).2.flowTable =
      s.flowTable.insert key (.new (hints.newDirection s.flowTable key proto flags)) := by
  rw [Hints.getDirection, h]

/-- Where the directions of the entries come from: the hints, or the other direction, which is there for every
downlink. -/
def Hints.Stored (hints : Hints) (table : FlowTable) : Prop :=
  ∀ key flow, table.lookup key = some flow →
    (∀ client server, hints.both = some (client, server) → flow.direction = hintedDirection client server key) ∧
      (hints.both = none → flow.direction = .downlink → ∃ flow', table.lookup key.reversed = some flow')

theorem stored_insert {hints : Hints} {table : FlowTable} (h : hints.Stored table) (key : FiveTuple)
    (proto flags : Nat) : hints.Stored (table.insert key (.new (hints.newDirection table key proto flags))) := by
  intro k flow hk
  by_cases hkey : k = key
  · subst hkey
    rw [AList.lookup_insert] at hk
    obtain rfl := Option.some.inj hk
    constructor
    · intro client server hboth
      simp only [FlowInfo.new, Hints.newDirection, hboth]
    · intro hboth hdown
      simp only [FlowInfo.new, Hints.newDirection, hboth] at hdown
      split_ifs at hdown with hsyn
      rcases hother : table.lookup k.reversed with _ | flow'
      · rw [hother] at hdown
        cases hdown
      · by_cases hself : k.reversed = k
        · exact ⟨_, by rw [hself, AList.lookup_insert]⟩
        · exact ⟨flow', by rw [AList.lookup_insert_ne hself, hother]⟩
  · rw [AList.lookup_insert_ne hkey] at hk
    obtain ⟨hhint, hother⟩ := h k flow hk
    refine ⟨hhint, fun hboth hdown => ?_⟩
    obtain ⟨flow', hflow'⟩ := hother hboth hdown
    by_cases hself : k.reversed = key
    · exact ⟨_, by rw [hself, AList.lookup_insert]⟩
    · exact ⟨flow', by rw [AList.lookup_insert_ne hself, hflow']⟩

theorem stored_getDirection {hints : Hints} {s : Flows} (h : hints.Stored s.flowTable) (key : FiveTuple)
    (proto flags : Nat) : hints.Stored (hints.getDirection s key proto flags).2.flowTable := by
  rcases hkey : s.flowTable.lookup key with _ | flow
  · rw [getDirection_of_none hints hkey]
    exact stored_insert h key proto flags
  · rw [getDirection_of_some hints hkey]
    exact h

/-- A second direction is opposite to the first exactly when the packet tells. -/
theorem newDirection_ne_iff {hints : Hints} {table : FlowTable} (h : hints.Stored table) {p : FlowPacket}
    {flow : FlowInfo} (hnew : table.lookup p.key = none) (hother : table.lookup p.key.reversed = some flow) :
    hints.newDirection table p.key p.proto p.flags ≠ flow.direction ↔ hints.Tell p := by
  obtain ⟨hhint, hdown⟩ := h _ _ hother
  rcases hboth : hints.both with _ | ⟨client, server⟩
  · have hup : flow.direction = .uplink := by
      cases hdir : flow.direction with
      | uplink => rfl
      | downlink =>
        obtain ⟨flow', hflow'⟩ := hdown hboth hdir
        rw [FiveTuple.reversed_reversed, hnew] at hflow'
        cases hflow'
    simp only [Hints.newDirection, Hints.Tell, hboth, hother, hup]
    cases isSyn p.proto p.flags with
    | true => simp
    | false => simp [Direction.opposite]
  · simp only [Hints.newDirection, Hints.Tell, hboth, hhint client server hboth]
    exact hintedDirection_ne_iff

/-- A new entry keeps the flows opposed exactly when it is opposite to the entry of the other direction. -/
theorem opposed_insert_iff {table : FlowTable} {key : FiveTuple} (hnew : table.lookup key = none) (flow : FlowInfo) :
    Opposed (table.insert key flow) ↔
      Opposed table ∧
        (key.reversed ≠ key → ∀ flow', table.lookup key.reversed = some flow' → flow.direction ≠ flow'.direction) := by
  constructor
  · intro h
    constructor
    · intro k f f' hne hk hk'
      have hkey : k ≠ key := by
        rintro rfl
        rw [hnew] at hk
        cases hk
      have hkey' : k.reversed ≠ key := by
        rintro rfl
        rw [hnew] at hk'
        cases hk'
      refine h k f f' hne ?_ ?_
      · rwa [AList.lookup_insert_ne hkey]
      · rwa [AList.lookup_insert_ne hkey']
    · intro hne f' hf'
      refine h key flow f' hne (AList.lookup_insert table) ?_
      rwa [AList.lookup_insert_ne hne]
  · rintro ⟨h, hkey⟩ k f f' hne hk hk'
    by_cases hfirst : k = key
    · subst hfirst
      rw [AList.lookup_insert] at hk
      rw [AList.lookup_insert_ne hne] at hk'
      obtain rfl := Option.some.inj hk
      exact hkey hne f' hk'
    · rw [AList.lookup_insert_ne hfirst] at hk
      by_cases hsecond : k.reversed = key
      · obtain rfl := FiveTuple.reversed_eq_iff.mp hsecond
        rw [FiveTuple.reversed_reversed, AList.lookup_insert] at hk'
        obtain rfl := Option.some.inj hk'
        exact (hkey (Ne.symm hne) f hk).symm
      · rw [AList.lookup_insert_ne hsecond] at hk'
        exact h k f f' hne hk hk'

/-! ### Runs -/

theorem track_append (hints : Hints) (seen : List FlowPacket) (p : FlowPacket) :
    hints.track (seen ++ [p]) = (hints.getDirection (hints.track seen) p.key p.proto p.flags).2 := by
  rw [Hints.track, List.foldl_append]
  rfl

theorem track_stored (hints : Hints) (packets : List FlowPacket) : hints.Stored (hints.track packets).flowTable := by
  induction packets using List.reverseRecOn with
  | nil =>
    intro key flow h
    cases h
  | append_singleton seen p ih =>
    rw [track_append]
    exact stored_getDirection ih p.key p.proto p.flags

theorem lookup_track_eq_none_iff (hints : Hints) (packets : List FlowPacket) (key : FiveTuple) :
    (hints.track packets).flowTable.lookup key = none ↔ ∀ q ∈ packets, q.key ≠ key := by
  induction packets using List.reverseRecOn with
  | nil => exact ⟨fun _ => nofun, fun _ => rfl⟩
  | append_singleton seen p ih =>
    have hsplit : (∀ q ∈ seen ++ [p], q.key ≠ key) ↔ (∀ q ∈ seen, q.key ≠ key) ∧ p.key ≠ key := by
      simp only [List.forall_mem_append, List.forall_mem_singleton]
    rw [hsplit, ← ih, track_append]
    generalize hints.track seen = s
    rcases hp : s.flowTable.lookup p.key with _ | flow
    · rw [getDirection_of_none hints hp]
      by_cases hkey : key = p.key
      · subst hkey
        rw [AList.lookup_insert]
        exact ⟨nofun, fun h => absurd rfl h.2⟩
      · rw [AList.lookup_insert_ne hkey]
        exact ⟨fun h => ⟨h, Ne.symm hkey⟩, And.left⟩
    · rw [getDirection_of_some hints hp]
      refine ⟨fun h => ⟨h, ?_⟩, And.left⟩
      rintro rfl
      rw [hp] at h
      cases h

theorem lookup_track_eq_some_iff (hints : Hints) (packets : List FlowPacket) (key : FiveTuple) :
    (∃ flow, (hints.track packets).flowTable.lookup key = some flow) ↔ ∃ q ∈ packets, q.key = key := by
  rw [← Option.ne_none_iff_exists', ne_eq, lookup_track_eq_none_iff]
  simp only [not_forall, not_not, exists_prop]

/-- **One packet** keeps the flows opposed exactly when it tells, if it opens a second direction. -/
theorem opposed_track_append_iff (hints : Hints) (seen : List FlowPacket) (p : FlowPacket) :
    Opposed (hints.track (seen ++ [p])).flowTable ↔
      Opposed (hints.track seen).flowTable ∧ (p.OpensSecond seen → hints.Tell p) := by
  have hnone := lookup_track_eq_none_iff hints seen p.key
  have hsome := lookup_track_eq_some_iff hints seen p.key.reversed
  have hstored := track_stored hints seen
  rw [track_append]
  generalize hints.track seen = s at *
  rcases hp : s.flowTable.lookup p.key with _ | flow
  · have hfresh : ∀ q ∈ seen, q.key ≠ p.key := hnone.mp hp
    rw [getDirection_of_none hints hp, opposed_insert_iff hp]
    refine and_congr_right fun _ => ?_
    constructor
    · rintro h ⟨hne, -, hother⟩
      obtain ⟨flow, hflow⟩ := hsome.mpr hother
      exact (newDirection_ne_iff hstored hp hflow).mp (h hne flow hflow)
    · intro h hne flow hflow
      exact (newDirection_ne_iff hstored hp hflow).mpr (h ⟨hne, hfresh, hsome.mp ⟨flow, hflow⟩⟩)
  · rw [getDirection_of_some hints hp]
    refine ⟨fun h => ⟨h, ?_⟩, And.left⟩
    rintro ⟨-, hfresh, -⟩
    rw [hnone.mpr hfresh] at hp
    cases hp

/-- **Opposite directions.** After any run of `get_direction`, the two directions of every flow in the table are
opposite if and only if every packet that opened a second direction told which one it is. -/
theorem opposed_iff (hints : Hints) (packets : List FlowPacket) :
    Opposed (hints.track packets).flowTable ↔
      ∀ seen p, seen ++ [p] <+: packets → p.OpensSecond seen → hints.Tell p := by
  induction packets using List.reverseRecOn with
  | nil =>
    refine ⟨fun _ seen p hpre => ?_, fun _ key flow _ _ h => ?_⟩
    · simp at hpre
    · cases h
  | append_singleton packets p ih =>
    rw [opposed_track_append_iff, ih]
    constructor
    · rintro ⟨hbefore, hlast⟩ seen q hpre hopens
      rcases List.prefix_concat_iff.mp hpre with heq | hearlier
      · obtain ⟨rfl, hq⟩ := List.append_inj' heq rfl
        obtain rfl := List.singleton_inj.mp hq
        exact hlast hopens
      · exact hbefore seen q hearlier hopens
    · intro h
      refine ⟨fun seen q hpre => h seen q (hpre.trans (List.prefix_append ..)), ?_⟩
      exact h packets p List.prefix_rfl

/-- A key of the second host, which sends from port 443, and the hints of two other hosts. -/
def otherHosts : Hints := ⟨some "192.0.2.1".toList, some "192.0.2.2".toList⟩

def serverKey : FiveTuple :=
  ⟨[2, 0, 0, 0, 0, 2], [2, 0, 0, 0, 0, 1], "10.0.0.2".toList, "10.0.0.1".toList, some 443, some 50000, .tcp⟩

/-- A SYN and the answer to it, where the hints name two other hosts: both directions are uplink. -/
theorem opposed_otherHosts :
    (otherHosts.track [⟨serverKey.reversed, 6, 0x02⟩, ⟨serverKey, 6, 0x12⟩]).flowTable.lookup serverKey.reversed =
        some (.new .uplink) ∧
      (otherHosts.track [⟨serverKey.reversed, 6, 0x02⟩, ⟨serverKey, 6, 0x12⟩]).flowTable.lookup serverKey =
        some (.new .uplink) ∧
      ¬Opposed (otherHosts.track [⟨serverKey.reversed, 6, 0x02⟩, ⟨serverKey, 6, 0x12⟩]).flowTable := by
  refine ⟨by decide +kernel, by decide +kernel, ?_⟩
  intro h
  refine h serverKey (.new .uplink) (.new .uplink) (by decide) (by decide +kernel) (by decide +kernel) rfl

end SocketServer.Replay
