import Mathlib.Logic.Function.Basic
import SocketServer.Lib.Transition

/-!
# Capture processes (`tcpdump_start`, `tcpdump_stop`, `tcpdump_isrun`)

Every capture is a child process, registered in `_captures` under the path it writes. The lock around `_captures` is
held for single reads, pops and writes only, so that calls of several connection threads interleave between them:
`step` lets one call make its next step, or one child die.

`run_registered` : if no call pops or overwrites the entry of a path while `tcpdump_isrun` reports it, and a start that
gives up on its child leaves it dead, then between calls every live child is the registered one.
-/

namespace SocketServer.Capture

/-! ### The steps of the calls -/

/-- Where a call is; a child is a number, and a path that of the call. -/
inductive CallPhase (π : Type)
  | idle
  /-- `tcpdump_start`, in `_stop_capture_entry(old)`. -/
  | stoppingOld (path : π) (old : Nat)
  | poppingOld (path : π)
  | spawning (path : π)
  /-- Waiting for `ready`. -/
  | waiting (path : π) (child : Nat)
  | storing (path : π) (child : Nat)
  /-- `回收子进程`. -/
  | reaping (path : π) (child : Nat)
  /-- `tcpdump_stop`, in `_stop_capture_entry(entry)`. -/
  | stopping (path : π) (entry : Nat)
  | popping (path : π) (entry : Nat)
  | returned (result : Bool)
  deriving DecidableEq, Repr

/-- The steps of a call. -/
inductive CallAction (π : Type)
  /-- `tcpdump_start(path)` up to its look at `_captures`. -/
  | start (path : π)
  /-- `tcpdump_stop(path)` up to its look at `_captures`. -/
  | stop (path : π)
  /-- `_stop_capture_entry`; the child dies before the last `is_alive`, or is still alive then. -/
  | stopEntry (dies : Bool)
  | pop
  /-- `proc.start()`, which may raise. -/
  | spawn (starts : Bool)
  | ready (isReady : Bool)
  | store
  /-- The end of a start that is not ready, with what `terminate` achieves. -/
  | reap (dies : Bool)
  /-- The pop of `tcpdump_stop`, and whether the exit code is 0. -/
  | popEntry (exitedOk : Bool)
  deriving DecidableEq, Repr

/-- What happens: a step of a call, or the end of a child. -/
inductive ProcessEvent (ι π : Type)
  | call (c : ι) (action : CallAction π)
  | die (child : Nat)
  deriving DecidableEq, Repr

/-- `_captures`, the children alive with the paths they write, the number of children so far, and the calls `ι`. -/
structure Processes (ι π : Type) where
  captures : π → Option Nat
  alive : Nat → Option π
  next : Nat
  phase : ι → CallPhase π

variable {ι π : Type}

/-- `tcpdump_isrun`. -/
def tcpdumpIsrun (s : Processes ι π) (path : π) : Bool :=
  match s.captures path with
  | some child => (s.alive child).isSome
  | none => false

namespace Processes

def init : Processes ι π := ⟨fun _ => none, fun _ => none, 0, fun _ => .idle⟩

def goto [DecidableEq ι] (s : Processes ι π) (c : ι) (phase : CallPhase π) : Processes ι π :=
  { s with phase := Function.update s.phase c phase }

def setCapture [DecidableEq π] (s : Processes ι π) (path : π) (entry : Option Nat) : Processes ι π :=
  { s with captures := Function.update s.captures path entry }

def kill (s : Processes ι π) (child : Nat) : Processes ι π :=
  { s with alive := Function.update s.alive child none }

/-- The children after one of them is told to end. -/
def tryKill (s : Processes ι π) (child : Nat) (dies : Bool) : Processes ι π := if dies then s.kill child else s

def spawn (s : Processes ι π) (path : π) : Processes ι π :=
  { s with alive := Function.update s.alive s.next (some path), next := s.next + 1 }

/-- One step. -/
def step [DecidableEq ι] [DecidableEq π] (s : Processes ι π) : ProcessEvent ι π → Option (Processes ι π)
  | .die child => some (s.kill child)
  | .call c action =>
    match s.phase c, action with
    | .idle, .start path =>
      match s.captures path with
      | some old => some (s.goto c (.stoppingOld path old))
      | none => some (s.goto c (.spawning path))
    -- the result of `_stop_capture_entry` is not used
    | .stoppingOld path old, .stopEntry dies => some ((s.tryKill old dies).goto c (.poppingOld path))
    | .poppingOld path, .pop => some ((s.setCapture path none).goto c (.spawning path))
    | .spawning path, .spawn true => some ((s.spawn path).goto c (.waiting path s.next))
    | .spawning _, .spawn false => some (s.goto c (.returned false))
    | .waiting path child, .ready true => some (s.goto c (.storing path child))
    | .waiting path child, .ready false => some (s.goto c (.reaping path child))
    | .reaping _ child, .reap dies => some ((s.tryKill child dies).goto c (.returned false))
    | .storing path child, .store => some ((s.setCapture path (some child)).goto c (.returned true))
    | .idle, .stop path =>
      match s.captures path with
      | some entry => some (s.goto c (.stopping path entry))
      | none => some (s.goto c (.returned true))
    | .stopping path entry, .stopEntry dies =>
      let s := s.tryKill entry dies
      if (s.alive entry).isSome then some (s.goto c (.returned false)) else some (s.goto c (.popping path entry))
    | .popping path _, .popEntry exitedOk => some ((s.setCapture path none).goto c (.returned exitedOk))
    | _, _ => none

/-- No call is in progress. -/
def Quiet (s : Processes ι π) : Prop := ∀ c, s.phase c = .idle ∨ ∃ result, s.phase c = .returned result

/-- Every live child is the one registered under its path, so that `tcpdump_stop` finds it and `tcpdump_isrun`
reports it. -/
def Registered (s : Processes ι π) : Prop :=
  ∀ child path, s.alive child = some path → s.captures path = some child ∧ tcpdumpIsrun s path = true

/-- No live child loses its entry: an entry is popped or overwritten only when `tcpdump_isrun` does not report it, and a
start gives up on a child only when that is dead. -/
def careful (s : Processes ι π) : ProcessEvent ι π → Bool
  | .die _ => true
  | .call c action =>
    match s.phase c, action with
    | .poppingOld path, .pop | .popping path _, .popEntry _ | .storing path _, .store => !tcpdumpIsrun s path
    | .reaping _ child, .reap dies => dies || (s.alive child).isNone
    | _, _ => true

/-! ### The invariant -/

/-- A start has spawned this child and has not stored it yet. -/
def Holds (path : π) (child : Nat) (phase : CallPhase π) : Prop :=
  phase = .waiting path child ∨ phase = .storing path child ∨ phase = .reaping path child

/-- Every live child is registered under its path, or a start holds it. -/
def Covered (s : Processes ι π) : Prop :=
  ∀ child path, s.alive child = some path → s.captures path = some child ∨ ∃ c, Holds path child (s.phase c)

theorem alive_kill {s : Processes ι π} {dead child : Nat} {path : π} (h : (s.kill dead).alive child = some path) :
    child ≠ dead ∧ s.alive child = some path := by
  by_cases heq : child = dead
  · subst heq
    simp [kill] at h
  · simp only [kill, Function.update_of_ne heq] at h
    exact ⟨heq, h⟩

theorem Covered.tryKill {s : Processes ι π} (h : Covered s) (child : Nat) (dies : Bool) :
    Covered (s.tryKill child dies) := by
  cases dies with
  | false => exact h
  | true => exact fun x path hx => h x path (alive_kill hx).2

theorem tryKill_phase (s : Processes ι π) (child : Nat) (dies : Bool) : (s.tryKill child dies).phase = s.phase := by
  cases dies <;> rfl

theorem Covered.goto [DecidableEq ι] {s : Processes ι π} {c : ι} {phase : CallPhase π} (h : Covered s)
    (hholds : ∀ path child, Holds path child (s.phase c) → Holds path child phase) : Covered (s.goto c phase) := by
  intro child path halive
  rcases h child path halive with hreg | ⟨d, hd⟩
  · exact .inl hreg
  · refine .inr ⟨d, ?_⟩
    by_cases hdc : d = c
    · subst hdc
      simpa [Processes.goto] using hholds path child hd
    · simpa [Processes.goto, hdc] using hd

theorem Covered.pass [DecidableEq ι] {s : Processes ι π} {c : ι} {phase : CallPhase π} (h : Covered s)
    (hnone : ∀ path child, ¬Holds path child (s.phase c)) : Covered (s.goto c phase) :=
  h.goto fun path child hheld => absurd hheld (hnone path child)

theorem Covered.pop [DecidableEq π] {s : Processes ι π} {path : π} (h : Covered s)
    (hidle : tcpdumpIsrun s path = false) : Covered (s.setCapture path none) := by
  intro child q halive
  rcases h child q halive with hreg | hheld
  · refine .inl ?_
    by_cases hq : q = path
    · subst hq
      have halive' : s.alive child = some q := halive
      simp [tcpdumpIsrun, hreg, halive'] at hidle
    · simpa [setCapture, hq] using hreg
  · exact .inr hheld

theorem Covered.spawn [DecidableEq ι] {s : Processes ι π} {c : ι} {path : π} (h : Covered s)
    (hnone : ∀ path child, ¬Holds path child (s.phase c)) :
    Covered ((s.spawn path).goto c (.waiting path s.next)) := by
  intro child q halive
  by_cases hchild : child = s.next
  · subst hchild
    have hq : path = q := by simpa [Processes.goto, Processes.spawn] using halive
    refine .inr ⟨c, ?_⟩
    simp [Processes.goto, Holds, hq]
  · have halive' : s.alive child = some q := by
      simpa [Processes.goto, Processes.spawn, Function.update_of_ne hchild] using halive
    exact h.pass hnone child q halive'

theorem Covered.store [DecidableEq ι] [DecidableEq π] {s : Processes ι π} {c : ι} {path : π} {child : Nat}
    (h : Covered s) (hphase : s.phase c = .storing path child) (hidle : tcpdumpIsrun s path = false) :
    Covered ((s.setCapture path (some child)).goto c (.returned true)) := by
  intro x q halive
  have halive' : s.alive x = some q := halive
  rcases h x q halive' with hreg | ⟨d, hd⟩
  · refine .inl ?_
    by_cases hq : q = path
    · subst hq
      simp [tcpdumpIsrun, hreg, halive'] at hidle
    · simpa [Processes.goto, setCapture, hq] using hreg
  · by_cases hdc : d = c
    · subst hdc
      refine .inl ?_
      rw [hphase] at hd
      simp only [Holds, CallPhase.storing.injEq, reduceCtorEq, false_or, or_false] at hd
      simp [Processes.goto, setCapture, hd.1, hd.2]
    · refine .inr ⟨d, ?_⟩
      simpa [Processes.goto, setCapture, hdc] using hd

theorem Covered.reap [DecidableEq ι] {s : Processes ι π} {c : ι} {path : π} {child : Nat} {dies : Bool}
    (h : Covered s) (hphase : s.phase c = .reaping path child) (hdead : dies = true ∨ s.alive child = none) :
    Covered ((s.tryKill child dies).goto c (.returned false)) := by
  have hgone : (s.tryKill child dies).alive child = none := by
    cases dies with
    | true => simp [Processes.tryKill, kill]
    | false => exact hdead.resolve_left Bool.false_ne_true
  intro x q halive
  have halive' : (s.tryKill child dies).alive x = some q := halive
  rcases h.tryKill child dies x q halive' with hreg | ⟨d, hd⟩
  · exact .inl hreg
  · by_cases hdc : d = c
    · subst hdc
      rw [tryKill_phase, hphase] at hd
      simp only [Holds, CallPhase.reaping.injEq, reduceCtorEq, false_or] at hd
      rw [← hd.2, hgone] at halive'
      cases halive'
    · refine .inr ⟨d, ?_⟩
      simpa [Processes.goto, hdc] using hd

/-! ### Runs -/

/-- **One careful step** leaves every live child covered. -/
theorem Covered.step [DecidableEq ι] [DecidableEq π] {s s' : Processes ι π} {event : ProcessEvent ι π}
    (h : Covered s) (hcareful : careful s event = true) (hstep : s.step event = some s') : Covered s' := by
  cases event with
  | die child =>
    obtain rfl := Option.some.inj hstep
    exact h.tryKill child true
  | call c action =>
    have hnone (phase : CallPhase π) (hphase : s.phase c = phase) (hfree : ∀ path child, ¬Holds path child phase) :
        ∀ path child, ¬Holds path child (s.phase c) := by
      rw [hphase]
      exact hfree
    simp only [Processes.step] at hstep
    split at hstep
    · -- `start`
      rename_i hphase
      split at hstep
      all_goals
        cases hstep
        exact h.pass (hnone .idle hphase (by simp [Holds]))
    · -- the old child is told to end
      rename_i path old dies hphase
      cases hstep
      apply (h.tryKill old dies).pass
      rw [tryKill_phase]
      exact hnone (.stoppingOld path old) hphase (by simp [Holds])
    · -- the entry of the old child is popped
      rename_i path hphase
      cases hstep
      have hidle : tcpdumpIsrun s path = false := by simpa [careful, hphase] using hcareful
      exact (h.pop hidle).pass (hnone (.poppingOld path) hphase (by simp [Holds]))
    · rename_i path hphase
      cases hstep
      exact h.spawn (hnone (.spawning path) hphase (by simp [Holds]))
    · rename_i path hphase
      cases hstep
      exact h.pass (hnone (.spawning path) hphase (by simp [Holds]))
    · -- `ready`
      rename_i path child hphase
      cases hstep
      apply h.goto
      rw [hphase]
      simp [Holds]
    · -- not `ready`
      rename_i path child hphase
      cases hstep
      apply h.goto
      rw [hphase]
      simp [Holds]
    · rename_i path child dies hphase
      cases hstep
      exact h.reap hphase (by simpa [careful, hphase] using hcareful)
    · rename_i path child hphase
      cases hstep
      exact h.store hphase (by simpa [careful, hphase] using hcareful)
    · -- `stop`
      rename_i hphase
      split at hstep
      all_goals
        cases hstep
        exact h.pass (hnone .idle hphase (by simp [Holds]))
    · -- the child is told to end
      rename_i path entry dies hphase
      split_ifs at hstep
      all_goals
        cases hstep
        apply (h.tryKill entry dies).pass
        rw [tryKill_phase]
        exact hnone (.stopping path entry) hphase (by simp [Holds])
    · -- its entry is popped
      rename_i path entry exitedOk hphase
      cases hstep
      have hidle : tcpdumpIsrun s path = false := by simpa [careful, hphase] using hcareful
      exact (h.pop hidle).pass (hnone (.popping path entry) hphase (by simp [Holds]))
    · cases hstep

theorem Covered.registered {s : Processes ι π} (h : Covered s) (hquiet : Quiet s) : Registered s := by
  intro child path halive
  rcases h child path halive with hreg | ⟨c, hc⟩
  · exact ⟨hreg, by simp [tcpdumpIsrun, hreg, halive]⟩
  · rcases hquiet c with hphase | ⟨result, hphase⟩
    all_goals
      rw [hphase] at hc
      simp [Holds] at hc

theorem covered_init : Covered (init : Processes ι π) := by
  intro child path halive
  cases halive

/-- **No child is lost**: in every run whose steps are all careful, whenever no call is in progress every live child is
the one registered under its path. -/
theorem run_registered [DecidableEq ι] [DecidableEq π] {events : List (ProcessEvent ι π)} {s : Processes ι π}
    (hrun : Run (fun s event s' => careful s event = true ∧ s.step event = some s') init events s)
    (hquiet : Quiet s) : Registered s := by
  have hcovered : Covered s :=
    hrun.invariant Covered (fun s event s' h hstep => h.step hstep.1 hstep.2) covered_init
  exact hcovered.registered hquiet

/-! ### Two calls -/

/-- A second start, after the first one has returned, ends the child of the first. -/
def restart : List (ProcessEvent Bool Unit) :=
  [.call false (.start ()), .call false (.spawn true), .call false (.ready true), .call false .store,
    .call true (.start ()), .call true (.stopEntry true), .call true .pop, .call true (.spawn true),
    .call true (.ready true), .call true .store]

/-- After both, the second child is registered and runs. -/
theorem run_registered_restart :
    ∃ s, restart.foldlM step (init : Processes Bool Unit) = some s ∧ s.alive 1 = some () ∧ Registered s := by
  refine ⟨_, rfl, rfl, run_registered (run_guarded (l := restart) rfl) ?_⟩
  intro c
  cases c <;> exact .inr ⟨true, rfl⟩

/-- Both starts look before either has stored its child. -/
def overlappingStarts : List (ProcessEvent Bool Unit) :=
  [.call false (.start ()), .call true (.start ()), .call false (.spawn true), .call true (.spawn true),
    .call false (.ready true), .call true (.ready true), .call false .store, .call true .store]

/-- Both return `True` and both children run; the first child is not registered. -/
theorem overlappingStarts_lost :
    ∃ s, Run (fun s event s' => s.step event = some s') (init : Processes Bool Unit) overlappingStarts s ∧
      Quiet s ∧ s.alive 0 = some () ∧ s.captures () = some 1 ∧ ¬Registered s := by
  refine ⟨_, run_foldlM (l := overlappingStarts) rfl, ?_, rfl, rfl, ?_⟩
  · intro c
    cases c <;> exact .inr ⟨true, rfl⟩
  · intro h
    have hfirst := (h 0 () rfl).1
    cases hfirst

end Processes

end SocketServer.Capture
