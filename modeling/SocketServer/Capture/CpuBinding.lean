import Mathlib.Data.List.Infix
import Mathlib.Data.List.Sort
import Mathlib.Order.Bounds.Basic
import SocketServer.Lib.Grouping
import SocketServer.Lib.Text

/-!
# Binding a NIC to a CPU (`SingleQueueRxThread`)

A capture with `single_queue` binds the interrupts of its NIC to a CPU that no other NIC has, according to a record in
the globals of the module. Since every capture is a process of its own, `SingleQueueRxThread` runs in the child, on the
globals that the child has from its parent.

* `recorded_sharedRun` : in one process the record does its work;
* `recorded_nodup_iff` : in processes of their own, NICs have different CPUs only where the loads make the choice
  different.
-/

namespace SocketServer.Capture.CpuBinding

open Text

/-- The module globals of one process. -/
structure Globals where
  nicCpuBinding : Dict Str Nat
  allocatedCpus : List Nat
  deriving DecidableEq, Repr

def Globals.init : Globals := ⟨[], []⟩

/-- What `SingleQueueRxThread` finds out about the machine. -/
structure Machine where
  /-- What `ip link show` prints. -/
  ipLinkShow : Str → Str
  /-- `/sys/class/net/{eth}/device/msi_irqs` is a directory. -/
  isdirMsi : Str → Bool
  /-- The names in it, unless reading it raises. -/
  listdirMsi : Str → Option (List Str)
  /-- The lines of `/proc/interrupts`, up to where reading it raises. -/
  interrupts : List Str
  interruptsRaises : Bool
  /-- What `cat /proc/interrupts | grep {eth} | awk -F ':'` prints. -/
  grepInterrupts : Str → Str
  cpuCount : Option Nat
  /-- The lines of `/proc/stat`, up to where reading it raises. -/
  procStat : List Str

/-- `line.split()`. -/
def splitFields (line : Str) : List Str := (line.splitOnP isSpace).filter fun field => !field.isEmpty

/-- `int(s)` of an `s.isdigit()`. -/
def irqOf (s : Str) : Option Nat := if !s.isEmpty && s.all Char.isDigit then parseDigits 0 false s else none

def mlx5 : Str := ['m', 'l', 'x', '5']

/-- `_get_irqs_via_sys`, which may raise. -/
def getIrqsViaSys (m : Machine) (eth : Str) (count : Nat) : Option (List Nat) := do
  let irqs ←
    if m.isdirMsi eth then do
      let names ← m.listdirMsi eth
      some (((names.filterMap irqOf).insertionSort (· ≤ ·)).take (max (count * 2) 4))
    else some []
  if irqs.isEmpty then
    let lines := m.interrupts.filter fun line => eth <:+: line || mlx5 <:+: line.map Char.toLower
    let irqs := lines.filterMap fun line => irqOf (strip isSpace ((strip isSpace line).takeWhile (· ≠ ':')))
    if m.interruptsRaises then some irqs else some (irqs.take count)
  else some irqs

def getIrqsViaProc (m : Machine) (eth : Str) : List Nat := (splitFields (m.grepInterrupts eth)).filterMap irqOf

/-- The interrupts that `_bind_single_queue_cpu` works on. -/
def irqsOf (m : Machine) (eth : Str) (count : Nat) : Option (List Nat) :=
  (getIrqsViaSys m eth count).map fun irqs => if irqs.isEmpty then getIrqsViaProc m eth else irqs

/-! ### The load of the CPUs -/

def cpuWord : Str := ['c', 'p', 'u']

/-- `int(parts[i])`. -/
def intField (parts : List Str) (i : Nat) : Option Int := parts[i]?.bind parseInt

/-- `int(parts[i]) if len(parts) > i else 0`. -/
def intFieldOr0 (parts : List Str) (i : Nat) : Option Int :=
  if i < parts.length then intField parts i else some 0

/-- The number of the CPU in a line of `/proc/stat`, and whether its load is 99% or more. The quotient is not rounded,
which makes no difference for counters below `10 ^ 13`. -/
def cpuLoad (line : Str) : Option (Int × Bool) := do
  let parts := splitFields line
  let cpuId ← parts[0]?.bind fun word => parseInt (word.drop 3)
  let user ← intField parts 1
  let nice ← intField parts 2
  let system ← intField parts 3
  let idle ← intField parts 4
  let iowait ← intFieldOr0 parts 5
  let irq ← intFieldOr0 parts 6
  let softirq ← intFieldOr0 parts 7
  let total := user + nice + system + idle + iowait + irq + softirq
  some (cpuId, 0 < total && 99 * total ≤ 100 * (total - idle))

/-- The CPUs at 99% or more. A line that is not as expected ends the loop. -/
def loadedCpus : List Str → List Int
  | [] => []
  | line :: lines =>
    if cpuWord.isPrefixOf line && !(cpuWord ++ [' ']).isPrefixOf line then
      match cpuLoad line with
      | none => []
      | some (cpuId, loaded) => if loaded then cpuId :: loadedCpus lines else loadedCpus lines
    else loadedCpus lines

/-- `os.cpu_count() or 8`. -/
def Machine.cpus (m : Machine) : Nat :=
  match m.cpuCount with
  | none => 8
  | some 0 => 8
  | some n => n

/-- `busy_cpus`. -/
def busyCpus (g : Globals) (m : Machine) (cpu : Nat) : Bool :=
  cpu ∈ g.allocatedCpus || (cpu : Int) ∈ loadedCpus m.procStat || cpu = 0

def pickTargetCpu (g : Globals) (m : Machine) : Nat :=
  match (List.range' 1 (m.cpus - 1)).find? fun cpu => !busyCpus g m cpu with
  | some cpu => cpu
  | none => m.cpus - 1

/-! ### The processes -/

/-- `_bind_single_queue_cpu`, as far as the globals go. -/
def bindSingleQueueCpu (g : Globals) (m : Machine) (eth : Str) (count : Nat) : Option Globals := do
  let irqs ← irqsOf m eth count
  if irqs.isEmpty then some g
  else
    let targetCpu := pickTargetCpu g m
    some ⟨g.nicCpuBinding.put eth targetCpu,
      if targetCpu ∈ g.allocatedCpus then g.allocatedCpus else g.allocatedCpus ++ [targetCpu]⟩

/-- `single_queue_rx_thread`, which binds the CPU whatever the number of queues was. -/
def singleQueueRxThread (g : Globals) (m : Machine) (eth : Str) (count : Nat) : Option Globals :=
  if (strip isSpace (m.ipLinkShow eth)).isEmpty then none else bindSingleQueueCpu g m eth count

/-- `SingleQueueRxThread(eth, count)`. -/
def SingleQueueRxThread (g : Globals) (m : Machine) (eth : Str) (count : Nat) : Option Globals :=
  if (g.nicCpuBinding.get eth).isSome then some g else singleQueueRxThread g m eth count

/-- A call of `tcpdump_start`: its NIC, and what its child finds. -/
structure Start where
  eth : Str
  machine : Machine

/-- `_capture_process_main` up to its capture, on the globals of the child. -/
def captureProcessMain (g : Globals) (singleQueue : Bool) (st : Start) : Globals :=
  if singleQueue then (SingleQueueRxThread g st.machine st.eth 1).getD g else g

/-- The server and its capture children. -/
structure System where
  parent : Globals
  captures : List Globals
  deriving DecidableEq, Repr

def System.init : System := ⟨.init, []⟩

/-- `tcpdump_start`: the child starts on a copy of the globals. -/
def tcpdumpStart (singleQueue : Bool) (s : System) (st : Start) : System :=
  { s with captures := s.captures ++ [captureProcessMain s.parent singleQueue st] }

/-- The captures that run at the same time after these starts. -/
def run (starts : List Start) : System := starts.foldl (tcpdumpStart true) .init

/-- The CPUs recorded as bound, in all the processes. -/
def System.recorded (s : System) : List Nat := s.captures.flatMap fun g => g.nicCpuBinding.values

/-! ### What is free -/

/-- The CPUs other than CPU 0 below 99%. -/
def freeCpus (m : Machine) : List Nat :=
  (List.range' 1 (m.cpus - 1)).filter fun cpu => (cpu : Int) ∉ loadedCpus m.procStat

/-- The NIC is there, and has interrupts. -/
def Start.binds (st : Start) : Bool :=
  !(strip isSpace (st.machine.ipLinkShow st.eth)).isEmpty && (irqsOf st.machine st.eth 1).any fun irqs => !irqs.isEmpty

/-- The lowest free CPU is the same at both starts. -/
def SameLowest (a b : Start) : Prop :=
  ∃ cpu, IsLeast {c | c ∈ freeCpus a.machine} cpu ∧ IsLeast {c | c ∈ freeCpus b.machine} cpu

theorem mem_freeCpus {m : Machine} {cpu : Nat} :
    cpu ∈ freeCpus m ↔ cpu ∈ List.range' 1 (m.cpus - 1) ∧ (cpu : Int) ∉ loadedCpus m.procStat := by
  rw [freeCpus, List.mem_filter, decide_eq_true_iff]

theorem zero_notMem_freeCpus (m : Machine) : 0 ∉ freeCpus m := by
  intro h
  have hrange := (mem_freeCpus.mp h).1
  rw [List.mem_range'_1] at hrange
  omega

theorem nodup_freeCpus (m : Machine) : (freeCpus m).Nodup := List.Nodup.filter _ List.nodup_range'

theorem not_busyCpus {g : Globals} {m : Machine} {cpu : Nat} (h : cpu ∈ List.range' 1 (m.cpus - 1)) :
    (!busyCpus g m cpu) = true ↔ cpu ∈ freeCpus m ∧ cpu ∉ g.allocatedCpus := by
  have hpos : cpu ≠ 0 := by
    rw [List.mem_range'_1] at h
    omega
  simp only [busyCpus, Bool.not_or, Bool.and_eq_true, Bool.not_eq_true', decide_eq_false_iff_not]
  constructor
  · rintro ⟨⟨hallocated, hloaded⟩, -⟩
    exact ⟨mem_freeCpus.mpr ⟨h, hloaded⟩, hallocated⟩
  · rintro ⟨hfree, hallocated⟩
    exact ⟨⟨hallocated, (mem_freeCpus.mp hfree).2⟩, hpos⟩

/-- **The choice**: with a CPU left, it is the lowest one that is free and not allocated. -/
theorem pickTargetCpu_isLeast {g : Globals} {m : Machine} (h : g.allocatedCpus.length < (freeCpus m).length) :
    IsLeast {c | c ∈ freeCpus m ∧ c ∉ g.allocatedCpus} (pickTargetCpu g m) := by
  obtain ⟨left, hleft⟩ : ∃ c ∈ freeCpus m, c ∉ g.allocatedCpus := by
    by_contra hnone
    push Not at hnone
    have hsub := List.subperm_of_subset (nodup_freeCpus m) hnone
    exact absurd hsub.length_le (Nat.not_le.mpr h)
  have hrange (c : Nat) (hc : c ∈ freeCpus m) : c ∈ List.range' 1 (m.cpus - 1) := (mem_freeCpus.mp hc).1
  rw [pickTargetCpu]
  split
  · rename_i cpu hfind
    obtain ⟨hcpu, hmem, hbefore⟩ := List.find?_range'_eq_some.mp hfind
    refine ⟨(not_busyCpus hmem).mp hcpu, fun c hc => ?_⟩
    by_contra hlt
    have hc1 := List.mem_range'_1.mp (hrange c hc.1)
    have hbusy := hbefore c hc1.1 (Nat.not_le.mp hlt)
    rw [(not_busyCpus (hrange c hc.1)).mpr hc] at hbusy
    cases hbusy
  · rename_i hfind
    have hbusy := List.find?_eq_none.mp hfind left (hrange left hleft.1)
    exact absurd ((not_busyCpus (hrange left hleft.1)).mpr hleft) hbusy

/-! ### One start -/

theorem captureProcessMain_eq (g : Globals) (st : Start) :
    captureProcessMain g true st =
      if g.nicCpuBinding.get st.eth = none ∧ st.binds then
        ⟨g.nicCpuBinding.put st.eth (pickTargetCpu g st.machine),
          if pickTargetCpu g st.machine ∈ g.allocatedCpus then g.allocatedCpus
          else g.allocatedCpus ++ [pickTargetCpu g st.machine]⟩
      else g := by
  rw [captureProcessMain, if_pos rfl, SingleQueueRxThread]
  cases hget : g.nicCpuBinding.get st.eth with
  | some cpu => simp
  | none =>
    simp only [Option.isSome_none, Bool.false_eq_true, if_false, true_and]
    rw [singleQueueRxThread, bindSingleQueueCpu, Start.binds]
    cases hlink : (strip isSpace (st.machine.ipLinkShow st.eth)).isEmpty with
    | true => rfl
    | false =>
      cases hirqs : irqsOf st.machine st.eth 1 with
      | none => rfl
      | some irqs =>
        cases irqs with
        | nil => rfl
        | cons irq irqs => rfl

/-! ### Starts in one process -/

/-- The record of a process: the CPUs allocated are those bound, each for one NIC, and CPU 0 is not among them. -/
structure Distinct (g : Globals) : Prop where
  bound : g.nicCpuBinding.values = g.allocatedCpus
  nodup : g.allocatedCpus.Nodup
  zero : 0 ∉ g.allocatedCpus

theorem put_of_get_none {d : Dict Str Nat} {eth : Str} (h : d.get eth = none) (cpu : Nat) :
    d.put eth cpu = d ++ [(eth, cpu)] := by
  induction d with
  | nil => rfl
  | cons pair d ih =>
    obtain ⟨eth', cpu'⟩ := pair
    rw [Dict.get] at h
    by_cases heq : eth' = eth
    · rw [if_pos heq] at h
      cases h
    · rw [if_neg heq] at h
      rw [Dict.put, if_neg heq, ih h]
      rfl

theorem Distinct.start {g : Globals} (h : Distinct g) {st : Start}
    (hfree : g.allocatedCpus.length < (freeCpus st.machine).length) :
    Distinct (captureProcessMain g true st) ∧
      (captureProcessMain g true st).allocatedCpus.length ≤ g.allocatedCpus.length + 1 := by
  obtain ⟨⟨hpick, hnew⟩, -⟩ := pickTargetCpu_isLeast hfree
  have hzero : pickTargetCpu g st.machine ≠ 0 := fun h0 => zero_notMem_freeCpus st.machine (h0 ▸ hpick)
  rw [captureProcessMain_eq]
  by_cases hbinds : g.nicCpuBinding.get st.eth = none ∧ st.binds
  · rw [if_pos hbinds, if_neg hnew]
    refine ⟨⟨?_, ?_, ?_⟩, by rw [List.length_append]; rfl⟩
    · rw [put_of_get_none hbinds.1, Dict.values, List.map_append, ← Dict.values, h.bound]
      rfl
    · exact List.nodup_append.mpr ⟨h.nodup, List.nodup_singleton _, fun a ha b hb heq => by
        rw [heq, List.mem_singleton.mp hb] at ha
        exact hnew ha⟩
    · rw [List.mem_append, List.mem_singleton]
      rintro (hold | heq)
      · exact h.zero hold
      · exact hzero heq.symm
  · rw [if_neg hbinds]
    exact ⟨h, Nat.le_succ _⟩

/-- The starts, if they all worked on the globals of one process. -/
def sharedRun (starts : List Start) : Globals := starts.foldl (fun g st => captureProcessMain g true st) .init

theorem distinct_sharedRun {starts : List Start} (h : ∀ st ∈ starts, starts.length < (freeCpus st.machine).length) :
    Distinct (sharedRun starts) ∧ (sharedRun starts).allocatedCpus.length ≤ starts.length := by
  suffices hrun : ∀ done, done <+: starts →
      Distinct (sharedRun done) ∧ (sharedRun done).allocatedCpus.length ≤ done.length from hrun starts List.prefix_rfl
  intro done
  induction done using List.reverseRecOn with
  | nil => exact fun _ => ⟨⟨rfl, List.nodup_nil, List.not_mem_nil⟩, le_rfl⟩
  | append_singleton done st ih =>
    intro hdone
    obtain ⟨hdistinct, hlength⟩ := ih ((List.prefix_append done [st]).trans hdone)
    have hst := h st (hdone.subset (List.mem_append_right done List.mem_cons_self))
    have hle := hdone.length_le
    rw [List.length_append, List.length_singleton] at hle
    obtain ⟨hnext, hgrow⟩ := hdistinct.start (Nat.lt_of_le_of_lt hlength (Nat.lt_of_lt_of_le hle hst.le))
    have hrun : sharedRun (done ++ [st]) = captureProcessMain (sharedRun done) true st := by
      rw [sharedRun, List.foldl_append]
      rfl
    rw [hrun, List.length_append, List.length_singleton]
    exact ⟨hnext, by omega⟩

/-- **In one process** the NICs have CPUs of their own, and none has CPU 0. -/
theorem recorded_sharedRun {starts : List Start} (h : ∀ st ∈ starts, starts.length < (freeCpus st.machine).length) :
    (sharedRun starts).nicCpuBinding.values.Nodup ∧ 0 ∉ (sharedRun starts).nicCpuBinding.values := by
  obtain ⟨hdistinct, -⟩ := distinct_sharedRun h
  rw [hdistinct.bound]
  exact ⟨hdistinct.nodup, hdistinct.zero⟩

/-! ### Starts in processes of their own -/

theorem run_eq (starts : List Start) :
    run starts = ⟨.init, starts.map fun st => captureProcessMain .init true st⟩ := by
  induction starts using List.reverseRecOn with
  | nil => rfl
  | append_singleton starts st ih =>
    have hrun : run (starts ++ [st]) = tcpdumpStart true (run starts) st := by
      rw [run, List.foldl_append]
      rfl
    rw [hrun, ih, tcpdumpStart, List.map_append]
    rfl

/-- **What is recorded**: every start that binds has chosen with nothing allocated. -/
theorem recorded_run (starts : List Start) :
    (run starts).recorded = (starts.filter Start.binds).map fun st => pickTargetCpu .init st.machine := by
  rw [run_eq, System.recorded, List.flatMap_map]
  induction starts with
  | nil => rfl
  | cons st starts ih =>
    rw [List.flatMap_cons, ih, captureProcessMain_eq]
    cases hbinds : st.binds with
    | true =>
      rw [if_pos ⟨rfl, rfl⟩, List.filter_cons_of_pos hbinds]
      rfl
    | false =>
      rw [if_neg fun h => Bool.false_ne_true h.2, List.filter_cons_of_neg (by simp [hbinds])]
      rfl

/-- **Different CPUs** for captures that run at the same time, if and only if no two of the starts that bind find the
same lowest free CPU. -/
theorem recorded_nodup_iff (starts : List Start) (h : ∀ st ∈ starts, starts.length < (freeCpus st.machine).length) :
    ((run starts).recorded.Nodup ∧ 0 ∉ (run starts).recorded) ↔
      (starts.filter Start.binds).Pairwise fun a b => ¬SameLowest a b := by
  have hpick (st : Start) (hst : st ∈ starts.filter Start.binds) :
      IsLeast {c | c ∈ freeCpus st.machine} (pickTargetCpu .init st.machine) := by
    have hfree := h st (List.mem_filter.mp hst).1
    obtain ⟨hmem, hle⟩ := pickTargetCpu_isLeast (g := .init) (Nat.zero_lt_of_lt hfree)
    exact ⟨hmem.1, fun c hc => hle ⟨hc, List.not_mem_nil⟩⟩
  have hzero : 0 ∉ (run starts).recorded := by
    rw [recorded_run]
    intro hmem
    obtain ⟨st, hst, hcpu⟩ := List.mem_map.mp hmem
    exact zero_notMem_freeCpus st.machine (hcpu ▸ (hpick st hst).1)
  rw [and_iff_left hzero, recorded_run, List.Nodup, List.pairwise_map]
  refine List.Pairwise.iff_of_mem fun {a b} ha hb => not_congr ?_
  constructor
  · intro heq
    exact ⟨pickTargetCpu .init a.machine, hpick a ha, heq ▸ hpick b hb⟩
  · rintro ⟨cpu, hcpua, hcpub⟩
    exact ((hpick a ha).unique hcpua).trans ((hpick b hb).unique hcpub).symm

/-- A line of `/proc/stat`: all idle, or all busy. -/
def statLine (cpu : Char) (idle : Bool) : Str :=
  ['c', 'p', 'u', cpu, ' '] ++ (if idle then ['0'] else ['9']) ++ [' ', '0', ' ', '0', ' '] ++
    (if idle then ['9'] else ['0'])

/-- Five CPUs, and a NIC of any name with one interrupt. -/
def fiveCpus (first : Bool) : Machine where
  ipLinkShow := fun eth => '2' :: ':' :: ' ' :: eth
  isdirMsi := fun _ => true
  listdirMsi := fun _ => some [['3', '0']]
  interrupts := []
  interruptsRaises := false
  grepInterrupts := fun _ => []
  cpuCount := some 5
  procStat := [statLine '0' true, statLine '1' first, statLine '2' true, statLine '3' true, statLine '4' true]

/-- Two captures; CPU 1 is idle or busy at the first start, and idle at the second. -/
def twoStarts (first : Bool) : List Start :=
  [⟨['e', 't', 'h', '0'], fiveCpus first⟩, ⟨['e', 't', 'h', '1'], fiveCpus true⟩]

theorem recorded_nodup_iff_twoStarts :
    ((run (twoStarts false)).recorded.Nodup ∧ 0 ∉ (run (twoStarts false)).recorded) ↔
      ((twoStarts false).filter Start.binds).Pairwise fun a b => ¬SameLowest a b :=
  recorded_nodup_iff (twoStarts false) (by decide)

/-- On an idle machine two NICs have one CPU. -/
theorem recorded_twoStarts :
    ((twoStarts true).map Start.eth).Nodup ∧
      (∀ st ∈ twoStarts true, (twoStarts true).length < (freeCpus st.machine).length) ∧
      (run (twoStarts true)).recorded = [1, 1] ∧ ¬(run (twoStarts true)).recorded.Nodup := by
  decide

end SocketServer.Capture.CpuBinding
