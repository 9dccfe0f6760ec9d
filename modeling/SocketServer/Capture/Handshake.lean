import SocketServer.Capture.Processes

/-!
# Starting a capture (`tcpdump_start` and `_capture_process_main`)

`tcpdump_start` starts a child and waits for its message on a pipe, ten seconds at most. The child configures the
queues, opens the capture, lets its receive thread run for half a second, looks at that thread, and sends `ready` or
`error`; then it waits for the stop event or the end of the thread. `Handshake` has the steps of the two processes, of
the receive thread, and of whatever ends any of these.

* `run_confirmed` : a start that returns `True` has a child whose capture was open and running when it looked;
* `run_abandoned` : a start that returns `False` leaves no child to itself, it is dead or told to stop and signalled;
* `run_smooth` : a start returns `False` only if something failed or took too long;
* `run_stops` : a child that is told to stop makes a bounded number of steps;
* `run_processes` : the handshake takes the steps of `Processes`.
-/

namespace SocketServer.Capture

/-- Where `tcpdump_start` is, from `proc.start()`. -/
inductive ParentPhase
  | spawning
  /-- `parent_conn.poll(10)`. -/
  | polling
  | storing
  /-- `stop_evt.set()` is next. -/
  | reclaiming
  /-- `proc.join(timeout=5)`. -/
  | joining
  /-- `proc.terminate()` is next. -/
  | terminating
  /-- `proc.join(timeout=3)`. -/
  | joiningAgain
  | returned (result : Bool)
  deriving DecidableEq, Repr

/-- Where the main thread of the child is. -/
inductive ChildPhase
  | unborn
  /-- `SingleQueueRxThread`. -/
  | configuring
  /-- `cap.start()`. -/
  | opening
  /-- `time.sleep(0.5)`. -/
  | settling
  | checkingExc
  | checkingThread
  /-- `cap.stop()`, after one of the two checks. -/
  | stoppingFailed
  | joiningFailed
  /-- `_send_and_close`. -/
  | reporting (ready : Bool)
  /-- `stop_evt.wait(1.0)`. -/
  | waiting
  /-- `wait` has timed out, and the thread is looked at. -/
  | looking
  /-- `cap.stop()`. -/
  | stopping
  | joiningThread
  | sorting
  | exited (code : Int)
  deriving DecidableEq, Repr

structure Handshake where
  parent : ParentPhase
  child : ChildPhase
  /-- The pcap file has its global header. -/
  opened : Bool
  /-- The receive thread is alive. -/
  thread : Bool
  /-- `cap._exc` is set. -/
  exc : Bool
  /-- `cap._stopped` is set. -/
  stopped : Bool
  /-- What is in the pipe: `("ready", None)`, or `("error", ..)`. -/
  message : Option Bool
  readerOpen : Bool
  stopEvt : Bool
  /-- `SIGTERM` has been sent to the child. -/
  signalled : Bool
  /-- The child has found its thread alive and without an exception. -/
  confirmed : Bool
  /-- `_captures[path]` is the child. -/
  registered : Bool
  deriving DecidableEq, Repr

inductive HandshakeEvent
  /-- `proc.start()`, which may raise. -/
  | spawn (starts : Bool)
  /-- The next step of the main thread of the child, and whether it fails: `cap.start()` raises, `join` times out,
  sorting fails. -/
  | child (fails : Bool)
  /-- The receive thread ends, and may set `_exc`. -/
  | recvEnds (exc : Bool)
  /-- Something else ends the child. -/
  | kill (code : Int)
  /-- `poll` and `recv`, with a message or the end of the file. -/
  | poll
  | pollTimeout
  /-- The next step of `tcpdump_start` that does not wait. -/
  | proceed
  /-- The child has ended in a `join`. -/
  | joined
  | joinTimeout
  /-- `stop_evt.set()` and `proc.terminate()` of `_stop_capture_entry`, for the registered child. -/
  | stopEntry
  | terminateEntry
  deriving DecidableEq, Repr

def ChildPhase.Alive : ChildPhase → Bool
  | .unborn | .exited _ => false
  | _ => true

/-- `_send_and_close` is done, or the child has ended. -/
def ChildPhase.Closed : ChildPhase → Bool
  | .waiting | .looking | .stopping | .joiningThread | .sorting | .exited _ => true
  | _ => false

def ParentPhase.Returned : ParentPhase → Bool
  | .returned _ => true
  | _ => false

namespace Handshake

def init : Handshake :=
  ⟨.spawning, .unborn, false, false, false, false, none, true, false, false, false, false⟩

/-- The child ends, and its receive thread with it. -/
def exit (s : Handshake) (code : Int) : Handshake := { s with child := .exited code, thread := false }

/-- `_capture_process_main`. -/
def childStep (s : Handshake) (fails : Bool) : Option Handshake :=
  match s.child with
  | .unborn | .exited _ => none
  | .configuring => some { s with child := .opening }
  | .opening =>
    if fails then some { s with child := .reporting false }
    else some { s with child := .settling, opened := true, thread := true }
  | .settling => some { s with child := .checkingExc }
  | .checkingExc => some { s with child := if s.exc then .stoppingFailed else .checkingThread }
  | .checkingThread =>
    if s.thread then some { s with child := .reporting true, confirmed := true }
    else some { s with child := .stoppingFailed }
  | .stoppingFailed => some { s with child := .joiningFailed, stopped := true }
  | .joiningFailed => if s.thread ∧ ¬ fails then none else some { s with child := .reporting false }
  | .reporting ready =>
    -- `send` raises when nobody can read
    let s := if s.readerOpen then { s with message := some ready } else s
    some (if ready then { s with child := .waiting } else s.exit 0)
  | .waiting => some { s with child := if s.stopEvt then .stopping else .looking }
  | .looking => some { s with child := if s.thread then .waiting else .stopping }
  | .stopping => some { s with child := .joiningThread, stopped := true }
  | .joiningThread =>
    if s.thread then if fails then some (s.exit 1) else none else some { s with child := .sorting }
  | .sorting => some (s.exit (if fails then 1 else 0))

/-- `tcpdump_start`, where it does not wait. -/
def proceed (s : Handshake) : Option Handshake :=
  match s.parent with
  | .storing => some { s with parent := .returned true, registered := true }
  | .reclaiming => some { s with parent := .joining, stopEvt := true }
  | .terminating => some { s with parent := .joiningAgain, signalled := true }
  | _ => none

def step (s : Handshake) : HandshakeEvent → Option Handshake
  | .spawn starts =>
    if s.parent = .spawning then
      if starts then some { s with parent := .polling, child := .configuring }
      else some { s with parent := .returned false }
    else none
  -- the signal comes first
  | .child fails => if s.signalled ∧ s.child.Alive then some (s.exit (-15)) else s.childStep fails
  | .recvEnds exc => if s.thread then some { s with thread := false, exc := s.exc || exc } else none
  | .kill code => if s.child.Alive then some (s.exit code) else none
  | .poll =>
    if s.parent = .polling then
      match s.message with
      | some ready =>
        some { s with parent := if ready then .storing else .reclaiming, message := none, readerOpen := false }
      | none => if s.child.Closed then some { s with parent := .reclaiming, readerOpen := false } else none
    else none
  | .pollTimeout =>
    if s.parent = .polling ∧ s.message = none then some { s with parent := .reclaiming, readerOpen := false }
    else none
  | .proceed => s.proceed
  | .joined =>
    if (s.parent = .joining ∨ s.parent = .joiningAgain) ∧ ¬ s.child.Alive then
      some { s with parent := .returned false }
    else none
  | .joinTimeout =>
    if s.parent = .joining then
      some { s with parent := if s.child.Alive then .terminating else .returned false }
    else if s.parent = .joiningAgain then some { s with parent := .returned false }
    else none
  | .stopEntry => if s.registered then some { s with stopEvt := true } else none
  | .terminateEntry => if s.registered then some { s with signalled := true } else none

variable {s s' : Handshake}

/-! ### What `ready` promises -/

/-- Everything that leads to the result `True` comes after the check of the child. -/
structure Promised (s : Handshake) : Prop where
  settling : s.child = .settling ∨ s.child = .checkingExc ∨ s.child = .checkingThread → s.opened = true
  reporting : s.child = .reporting true → s.confirmed = true
  message : s.message = some true → s.confirmed = true
  storing : s.parent = .storing → s.confirmed = true
  returned : s.parent = .returned true → s.confirmed = true ∧ s.registered = true
  confirmed : s.confirmed = true → s.opened = true

theorem promised_init : Promised init := by
  constructor <;> simp [init]

theorem childStep_promised {fails : Bool} (h : Promised s) (hstep : s.childStep fails = some s') : Promised s' := by
  obtain ⟨hsettling, hreporting, hmessage, hstoring, hreturned, hconfirmed⟩ := h
  unfold childStep at hstep
  split at hstep
  all_goals first | cases hstep; done | skip
  all_goals constructor <;> grind -ring -linarith -lia [exit]

theorem step_promised {e : HandshakeEvent} (h : Promised s) (hstep : s.step e = some s') : Promised s' := by
  unfold step at hstep
  split at hstep
  case h_2 fails =>
    split_ifs at hstep
    · cases hstep
      obtain ⟨hsettling, hreporting, hmessage, hstoring, hreturned, hconfirmed⟩ := h
      constructor <;> grind -ring -linarith -lia [exit]
    · exact childStep_promised h hstep
  all_goals
    obtain ⟨hsettling, hreporting, hmessage, hstoring, hreturned, hconfirmed⟩ := h
    constructor <;> grind -ring -linarith -lia [exit, proceed]

/-! ### No child is left to itself -/

/-- What `回收子进程` has done so far. -/
structure Reclaimed (s : Handshake) : Prop where
  spawning : s.parent = .spawning → s.child = .unborn ∧ s.stopEvt = false ∧ s.registered = false
  joining : s.parent = .joining ∨ s.parent = .terminating → s.stopEvt = true
  joiningAgain : s.parent = .joiningAgain → s.stopEvt = true ∧ s.signalled = true
  returned : s.parent = .returned false → s.child.Alive = false ∨ s.stopEvt = true ∧ s.signalled = true

theorem reclaimed_init : Reclaimed init := by
  constructor <;> simp [init]

theorem step_reclaimed {e : HandshakeEvent} (h : Reclaimed s) (hstep : s.step e = some s') : Reclaimed s' := by
  obtain ⟨hspawning, hjoining, hagain, hreturned⟩ := h
  unfold step at hstep
  split at hstep
  all_goals constructor <;> grind -ring -linarith -lia [exit, proceed, childStep, ChildPhase.Alive]

/-! ### What makes a start fail -/

/-- Nothing fails before the start returns, and the child is in time. -/
def smooth (s : Handshake) : HandshakeEvent → Bool
  | .spawn starts => starts
  | .child fails => s.child != .opening || !fails
  | .recvEnds _ | .kill _ => s.parent.Returned
  | .pollTimeout => false
  | .poll | .proceed | .joined | .joinTimeout | .stopEntry | .terminateEntry => true

/-- The capture comes up. -/
structure Rising (s : Handshake) : Prop where
  parent : s.parent = .spawning ∨ s.parent = .polling ∨ s.parent = .storing
  unregistered : s.registered = false
  told : s.stopEvt = false ∧ s.signalled = false
  message : s.message ≠ some false
  exc : s.exc = false
  child : s.child = .unborn ∧ s.parent = .spawning ∨ s.child = .configuring ∨ s.child = .opening ∨
    s.thread = true ∧ (s.child = .settling ∨ s.child = .checkingExc ∨ s.child = .checkingThread ∨
      s.child = .reporting true ∨ s.child = .waiting ∨ s.child = .looking)
  reader : s.parent ≠ .storing → s.readerOpen = true
  sent : s.parent = .polling → s.child = .waiting ∨ s.child = .looking → s.message = some true

theorem childStep_parent {fails : Bool} (hstep : s.childStep fails = some s') : s'.parent = s.parent := by
  unfold childStep at hstep
  split at hstep
  all_goals grind -ring -linarith -lia [exit]

theorem step_returned {e : HandshakeEvent} {result : Bool} (h : s.parent = .returned result)
    (hstep : s.step e = some s') : s'.parent = .returned result := by
  unfold step at hstep
  split at hstep
  case h_2 fails =>
    split_ifs at hstep
    · cases hstep
      exact h
    · exact (childStep_parent hstep).trans h
  all_goals grind -ring -linarith -lia [exit, proceed]

theorem childStep_rising {fails : Bool} (h : Rising s) (hsmooth : s.child = .opening → fails = false)
    (hstep : s.childStep fails = some s') : Rising s' := by
  obtain ⟨hparent, hregistered, htold, hmessage, hexc, hchild, hreader, hsent⟩ := h
  unfold childStep at hstep
  split at hstep
  all_goals first | cases hstep; done | skip
  all_goals constructor <;> grind -ring -linarith -lia [exit]

theorem poll_rising (h : Rising s) (hstep : s.step .poll = some s') : Rising s' := by
  obtain ⟨hparent, hregistered, htold, hmessage, hexc, hchild, hreader, hsent⟩ := h
  simp only [step] at hstep
  by_cases hpolling : s.parent = .polling
  · rw [if_pos hpolling] at hstep
    rcases hm : s.message with _ | ready
    · -- the child has not closed the pipe without a message
      have hclosed : s.child.Closed = false := by
        have hwaiting := hsent hpolling
        rw [hm] at hwaiting
        rcases hchild with ⟨hchild, -⟩ | hchild | hchild | ⟨-, hchild⟩
        · rw [hchild]; rfl
        · rw [hchild]; rfl
        · rw [hchild]; rfl
        · rcases hchild with hchild | hchild | hchild | hchild | hchild | hchild
          · rw [hchild]; rfl
          · rw [hchild]; rfl
          · rw [hchild]; rfl
          · rw [hchild]; rfl
          · cases hwaiting (.inl hchild)
          · cases hwaiting (.inr hchild)
      rw [hm, hclosed] at hstep
      cases hstep
    · obtain rfl : ready = true := by
        cases ready with
        | false => exact absurd hm hmessage
        | true => rfl
      rw [hm] at hstep
      cases hstep
      refine ⟨.inr (.inr rfl), hregistered, htold, Option.some_ne_none _ ∘ Eq.symm, hexc, ?_, fun h => absurd rfl h,
        fun h => ParentPhase.noConfusion h⟩
      rcases hchild with ⟨-, hspawning⟩ | hchild
      · cases hpolling.symm.trans hspawning
      · exact .inr hchild
  · rw [if_neg hpolling] at hstep
    cases hstep

theorem step_rising {e : HandshakeEvent} (h : Rising s) (hsmooth : smooth s e = true) (hstep : s.step e = some s') :
    Rising s' ∨ s'.parent = .returned true := by
  cases e with
  | spawn starts =>
    obtain rfl : starts = true := hsmooth
    simp only [step] at hstep
    split_ifs at hstep with hspawning
    cases hstep
    exact .inl ⟨.inr (.inl rfl), h.unregistered, h.told, h.message, h.exc, .inr (.inl rfl),
      fun _ => h.reader (by rw [hspawning]; exact ParentPhase.noConfusion), fun _ hsent => by
        rcases hsent with hsent | hsent <;> cases hsent⟩
  | child fails =>
    simp only [step] at hstep
    rw [if_neg (by simp [h.told.2])] at hstep
    refine .inl (childStep_rising h (fun hopening => ?_) hstep)
    simpa [smooth, hopening] using hsmooth
  | recvEnds _ | kill _ =>
    have hreturned : s.parent.Returned = true := hsmooth
    rcases h.parent with hparent | hparent | hparent
    all_goals
      rw [hparent] at hreturned
      cases hreturned
  | poll => exact .inl (poll_rising h hstep)
  | pollTimeout => cases hsmooth
  | proceed =>
    simp only [step, proceed] at hstep
    rcases h.parent with hparent | hparent | hparent
    all_goals
      rw [hparent] at hstep
      cases hstep
    exact .inr rfl
  | joined | joinTimeout =>
    simp only [step] at hstep
    rcases h.parent with hparent | hparent | hparent
    all_goals
      simp [hparent] at hstep
  | stopEntry | terminateEntry =>
    simp [step, h.unregistered] at hstep

/-! ### How long a child runs that is told to stop -/

/-- How many steps the main thread makes at most, once the stop event is set. -/
def rank : ChildPhase → Nat
  | .unborn | .exited _ => 0
  | .sorting | .reporting false => 1
  | .joiningThread | .joiningFailed => 2
  | .stopping | .stoppingFailed => 3
  | .waiting => 4
  | .looking | .reporting true => 5
  | .checkingThread => 6
  | .checkingExc => 7
  | .settling => 8
  | .opening => 9
  | .configuring => 10

theorem rank_le (child : ChildPhase) : rank child ≤ 10 := by
  unfold rank
  split <;> omega

theorem rank_pos {child : ChildPhase} (halive : child.Alive = true) : 0 < rank child := by
  cases child with
  | unborn | exited _ => cases halive
  | reporting ready => cases ready <;> exact Nat.succ_pos _
  | _ => exact Nat.succ_pos _

def isChild : HandshakeEvent → Bool
  | .child _ => true
  | _ => false

theorem childStep_rank {fails : Bool} (htold : s.stopEvt = true) (hstep : s.childStep fails = some s') :
    rank s'.child < rank s.child := by
  unfold childStep at hstep
  split at hstep
  all_goals grind -ring -linarith [exit, rank]

theorem step_rank {e : HandshakeEvent} (hparent : s.parent ≠ .spawning) (htold : s.stopEvt = true)
    (hstep : s.step e = some s') : rank s'.child + (if isChild e then 1 else 0) ≤ rank s.child := by
  cases e with
  | child fails =>
    simp only [step] at hstep
    split_ifs at hstep with hsignalled
    · cases hstep
      show 0 + 1 ≤ rank s.child
      exact rank_pos hsignalled.2
    · exact childStep_rank htold hstep
  | spawn starts => simp [step, hparent] at hstep
  | _ => grind -ring -linarith [step, exit, proceed, rank, isChild]

theorem step_told {e : HandshakeEvent} (hparent : s.parent ≠ .spawning) (htold : s.stopEvt = true)
    (hstep : s.step e = some s') : s'.parent ≠ .spawning ∧ s'.stopEvt = true := by
  unfold step at hstep
  split at hstep
  all_goals constructor <;> grind -ring -linarith -lia [exit, proceed, childStep]

/-! ### Runs -/

variable {before events : List HandshakeEvent}

/-- **A start that returns `True`** has seen its capture run, and has registered its child. -/
theorem run_confirmed (hrun : Run (fun s e s' => s.step e = some s') init events s)
    (hreturned : s.parent = .returned true) : s.opened = true ∧ s.confirmed = true ∧ s.registered = true := by
  have hpromised : Promised s := hrun.invariant Promised (fun _ _ _ h hstep => step_promised h hstep) promised_init
  obtain ⟨hconfirmed, hregistered⟩ := hpromised.returned hreturned
  exact ⟨hpromised.confirmed hconfirmed, hconfirmed, hregistered⟩

/-- **A start that returns `False`** has no child, or one that is dead, or told to stop and signalled. -/
theorem run_abandoned (hrun : Run (fun s e s' => s.step e = some s') init events s)
    (hreturned : s.parent = .returned false) : s.child.Alive = false ∨ s.stopEvt = true ∧ s.signalled = true := by
  have hreclaimed : Reclaimed s :=
    hrun.invariant Reclaimed (fun _ _ _ h hstep => step_reclaimed h hstep) reclaimed_init
  exact hreclaimed.returned hreturned

/-- **A start in which nothing fails** does not return `False`. -/
theorem run_smooth (hrun : Run (fun s e s' => smooth s e = true ∧ s.step e = some s') init events s) :
    s.parent ≠ .returned false := by
  have hrising : Rising s ∨ s.parent = .returned true := by
    refine hrun.invariant (fun s => Rising s ∨ s.parent = .returned true) (fun s e s' h hstep => ?_) (.inl ?_)
    · rcases h with h | h
      · exact step_rising h hstep.1 hstep.2
      · exact .inr (step_returned h hstep.2)
    · constructor <;> simp [init]
  intro hreturned
  rcases hrising with h | h
  · rcases h.parent with hparent | hparent | hparent <;> cases hreturned.symm.trans hparent
  · cases hreturned.symm.trans h

theorem run_rank (hrun : Run (fun s e s' => s.step e = some s') s events s') (hparent : s.parent ≠ .spawning)
    (htold : s.stopEvt = true) : (events.filter isChild).length + rank s'.child ≤ rank s.child := by
  induction hrun with
  | nil => simp
  | @cons s s₁ s' e events hstep _ ih =>
    obtain ⟨hparent₁, htold₁⟩ := step_told hparent htold hstep
    have hrest := ih hparent₁ htold₁
    have hfirst := step_rank hparent htold hstep
    cases he : isChild e with
    | true =>
      rw [he, if_pos rfl] at hfirst
      rw [List.filter_cons_of_pos he, List.length_cons]
      omega
    | false =>
      rw [he, if_neg Bool.false_ne_true] at hfirst
      rw [List.filter_cons_of_neg (by simp [he])]
      omega

theorem child_proceeds (halive : s.child.Alive = true) : ∃ s', s.step (.child true) = some s' := by
  simp only [step]
  split_ifs with hsignalled
  · exact ⟨_, rfl⟩
  · unfold childStep
    split
    · next hchild => simp [hchild, ChildPhase.Alive] at halive
    · next hchild => simp [hchild, ChildPhase.Alive] at halive
    all_goals cases s.thread <;> exact ⟨_, rfl⟩

/-- **A child that is told to stop** makes at most ten more steps, whatever else happens, and can make the next one as
long as it lives. -/
theorem run_stops (hbefore : Run (fun s e s' => s.step e = some s') init before s) (htold : s.stopEvt = true)
    (hrun : Run (fun s e s' => s.step e = some s') s events s') :
    (events.filter isChild).length ≤ 10 ∧ (s'.child.Alive = true → ∃ s'', s'.step (.child true) = some s'') := by
  have hreclaimed : Reclaimed s :=
    hbefore.invariant Reclaimed (fun _ _ _ h hstep => step_reclaimed h hstep) reclaimed_init
  have hparent : s.parent ≠ .spawning := by
    intro hspawning
    rw [(hreclaimed.spawning hspawning).2.1] at htold
    cases htold
  have hrank := run_rank hrun hparent htold
  have hle := rank_le s.child
  exact ⟨by omega, child_proceeds⟩

/-- The child gets ready in time. -/
def inTime : List HandshakeEvent :=
  .spawn true :: List.replicate 7 (.child false) ++ [.poll, .proceed]

theorem run_confirmed_inTime :
    ∃ s, inTime.foldlM step init = some s ∧ s.opened = true ∧ s.confirmed = true ∧ s.registered = true :=
  ⟨_, rfl, run_confirmed (run_foldlM (l := inTime) rfl) rfl⟩

/-- The child gets ready when the start has given up on it. -/
def tooLate : List HandshakeEvent :=
  .spawn true :: List.replicate 4 (.child false) ++
    [.pollTimeout, .child false, .child false, .proceed, .joinTimeout, .proceed, .joinTimeout]

theorem run_abandoned_tooLate :
    ∃ s, tooLate.foldlM step init = some s ∧ (s.child.Alive = false ∨ s.stopEvt = true ∧ s.signalled = true) :=
  ⟨_, rfl, run_abandoned (run_foldlM (l := tooLate) rfl) rfl⟩

theorem run_smooth_inTime :
    ∃ s, inTime.foldlM (fun s e => if smooth s e = true then s.step e else none) init = some s ∧
      s.parent ≠ .returned false :=
  ⟨_, rfl, run_smooth (run_guarded (l := inTime) rfl)⟩

/-- The child of `tooLate` ends by itself, before it is signalled. -/
def toldToStop : List HandshakeEvent :=
  [.child false, .child false, .recvEnds false, .child false, .child false]

theorem run_stops_tooLate :
    ∃ s s', (tooLate.take 9).foldlM step init = some s ∧ toldToStop.foldlM step s = some s' ∧
      (toldToStop.filter isChild).length ≤ 10 :=
  ⟨_, _, rfl, rfl, (run_stops (run_foldlM (l := tooLate.take 9) rfl) rfl (run_foldlM (l := toldToStop) rfl)).1⟩

/-! ### The steps of `Processes` -/

def call : ParentPhase → CallPhase Unit
  | .spawning => .spawning ()
  | .polling => .waiting () 0
  | .storing => .storing () 0
  | .reclaiming | .joining | .terminating | .joiningAgain => .reaping () 0
  | .returned result => .returned result

/-- One call, one path, and the child number 0. -/
def processes (s : Handshake) : Processes Unit Unit where
  captures _ := if s.registered then some 0 else none
  alive child := if child = 0 ∧ s.child.Alive then some () else none
  next := if s.child = .unborn then 0 else 1
  phase _ := call s.parent

theorem processes_congr (hregistered : s'.registered = s.registered) (halive : s'.child.Alive = s.child.Alive)
    (hunborn : s'.child = .unborn ↔ s.child = .unborn) (hcall : call s'.parent = call s.parent) :
    s'.processes = s.processes := by
  unfold processes
  rw [hregistered, halive, hcall]
  simp only [hunborn]

theorem processes_exit (code : Int) (halive : s.child.Alive = true) :
    s.processes.step (ι := Unit) (.die 0) = some (s.exit code).processes := by
  have hborn : s.child ≠ .unborn := by
    intro h
    rw [h] at halive
    cases halive
  have halive' : Function.update s.processes.alive 0 none = (s.exit code).processes.alive := by
    funext child
    by_cases hchild : child = 0
    · subst hchild
      rfl
    · simp [processes, hchild]
  have hnext : s.processes.next = (s.exit code).processes.next := by simp [processes, exit, hborn]
  show some (Processes.mk _ (Function.update s.processes.alive 0 none) s.processes.next _) = _
  rw [halive', hnext]
  rfl

theorem childStep_cases {fails : Bool} (hstep : s.childStep fails = some s') :
    s'.parent = s.parent ∧ s'.registered = s.registered ∧ s.child.Alive = true ∧
      (s'.child.Alive = true ∨ ∃ code, s'.child = .exited code) := by
  unfold childStep at hstep
  split at hstep
  all_goals first | cases hstep; done | skip
  all_goals grind -ring -linarith -lia [exit, ChildPhase.Alive]

theorem alive_unborn {child : ChildPhase} (h : child.Alive = true) : child ≠ .unborn := by
  rintro rfl
  cases h

/-- `Processes` follows from one state to the other. -/
def Follows (s s' : Handshake) : Prop :=
  ∃ l, Run (fun s e s' => Processes.step s e = some s') s.processes l s'.processes

theorem Follows.of_step {a : ProcessEvent Unit Unit} (h : s.processes.step a = some s'.processes) : Follows s s' :=
  ⟨[a], .cons h (.nil _)⟩

theorem Follows.of_eq (h : s'.processes = s.processes) : Follows s s' := ⟨[], h ▸ .nil _⟩

theorem follows_exit (code : Int) (halive : s.child.Alive = true) : Follows s (s.exit code) :=
  .of_step (processes_exit code halive)

theorem follows_childStep {fails : Bool} (hstep : s.childStep fails = some s') : Follows s s' := by
  obtain ⟨hparent, hregistered, halive, hcases⟩ := childStep_cases hstep
  rcases hcases with halive' | ⟨code, hexited⟩
  · exact .of_eq (processes_congr hregistered (halive'.trans halive.symm)
      (iff_of_false (alive_unborn halive') (alive_unborn halive)) (by rw [hparent]))
  · have hsame : s'.processes = (s.exit code).processes :=
      processes_congr hregistered (by rw [hexited]; rfl) (by rw [hexited]; rfl) (by rw [hparent]; rfl)
    exact .of_step (hsame ▸ processes_exit code halive)

theorem processes_ext {p q : Processes Unit Unit} (hcaptures : p.captures () = q.captures ())
    (halive : p.alive = q.alive) (hnext : p.next = q.next) (hphase : p.phase () = q.phase ()) : p = q := by
  obtain ⟨captures, alive, next, phase⟩ := p
  obtain ⟨captures', alive', next', phase'⟩ := q
  obtain rfl : alive = alive' := halive
  obtain rfl : next = next' := hnext
  have hcaptures' : captures = captures' := funext fun _ => hcaptures
  have hphase' : phase = phase' := funext fun _ => hphase
  rw [hcaptures', hphase']

theorem processes_goto {phase : CallPhase Unit} (hregistered : s'.registered = s.registered)
    (hchild : s'.child = s.child) (hcall : call s'.parent = phase) : s.processes.goto () phase = s'.processes := by
  refine processes_ext ?_ ?_ ?_ ?_
  · simp only [Processes.goto, processes, hregistered]
  · simp only [Processes.goto, processes, hchild]
  · simp only [Processes.goto, processes, hchild]
  · simp [Processes.goto, processes, hcall]

theorem processes_spawn (hunborn : s.child = .unborn) :
    (s.processes.spawn ()).goto () (.waiting () s.processes.next) =
      ({ s with parent := .polling, child := .configuring } : Handshake).processes := by
  refine processes_ext ?_ ?_ ?_ ?_
  · simp [Processes.goto, Processes.spawn, processes]
  · funext child
    by_cases hchild : child = 0 <;>
      simp [Processes.goto, Processes.spawn, processes, hunborn, hchild, ChildPhase.Alive]
  · simp [Processes.goto, Processes.spawn, processes, hunborn]
  · simp [Processes.goto, processes, hunborn, call]

theorem processes_store :
    (s.processes.setCapture () (some 0)).goto () (.returned true) =
      ({ s with parent := .returned true, registered := true } : Handshake).processes := by
  refine processes_ext ?_ ?_ ?_ ?_
  all_goals simp [Processes.goto, Processes.setCapture, processes, call]

theorem follows_spawn {starts : Bool} (h : Reclaimed s) (hstep : s.step (.spawn starts) = some s') :
    Follows s s' := by
  simp only [step] at hstep
  split_ifs at hstep with hspawning hstarts
  · have hphase : s.processes.phase () = .spawning () := congrArg call hspawning
    cases hstep
    refine .of_step (a := .call () (.spawn true)) ?_
    simp only [Processes.step, hphase]
    rw [processes_spawn (h.spawning hspawning).1]
  · have hphase : s.processes.phase () = .spawning () := congrArg call hspawning
    cases hstep
    refine .of_step (a := .call () (.spawn false)) ?_
    simp only [Processes.step, hphase]
    exact congrArg some (processes_goto rfl rfl rfl)

/-- A `poll` that is over, with `ready` or with anything else. -/
theorem processes_ready (hpolling : s.parent = .polling) (ready : Bool) (hregistered : s'.registered = s.registered)
    (hchild : s'.child = s.child) (hparent : s'.parent = if ready then .storing else .reclaiming) :
    s.processes.step (.call () (.ready ready)) = some s'.processes := by
  have hphase : s.processes.phase () = .waiting () 0 := congrArg call hpolling
  cases ready with
  | true =>
    simp only [Processes.step, hphase]
    exact congrArg some (processes_goto hregistered hchild (congrArg call hparent))
  | false =>
    simp only [Processes.step, hphase]
    exact congrArg some (processes_goto hregistered hchild (congrArg call hparent))

theorem follows_poll (hstep : s.step .poll = some s') : Follows s s' := by
  simp only [step] at hstep
  by_cases hpolling : s.parent = .polling
  · rw [if_pos hpolling] at hstep
    rcases hmessage : s.message with _ | ready
    · rw [hmessage] at hstep
      dsimp only at hstep
      split_ifs at hstep
      cases hstep
      exact .of_step (processes_ready hpolling false rfl rfl rfl)
    · rw [hmessage] at hstep
      cases hstep
      exact .of_step (processes_ready hpolling ready rfl rfl rfl)
  · rw [if_neg hpolling] at hstep
    cases hstep

theorem follows_proceed (hstep : s.proceed = some s') : Follows s s' := by
  unfold proceed at hstep
  split at hstep
  · next hstoring =>
    have hphase : s.processes.phase () = .storing () 0 := congrArg call hstoring
    cases hstep
    refine .of_step (a := .call () .store) ?_
    simp only [Processes.step, hphase]
    rw [processes_store]
  · next hreclaiming =>
    cases hstep
    exact .of_eq (processes_congr rfl rfl Iff.rfl (congrArg call hreclaiming).symm)
  · next hterminating =>
    cases hstep
    exact .of_eq (processes_congr rfl rfl Iff.rfl (congrArg call hterminating).symm)
  · cases hstep

theorem follows_reap (hcall : call s.parent = .reaping () 0) : Follows s { s with parent := .returned false } := by
  have hphase : s.processes.phase () = .reaping () 0 := hcall
  refine .of_step (a := .call () (.reap false)) ?_
  simp only [Processes.step, hphase]
  exact congrArg some (processes_goto rfl rfl rfl)

theorem follows_joinTimeout (hstep : s.step .joinTimeout = some s') : Follows s s' := by
  simp only [step] at hstep
  by_cases hjoining : s.parent = .joining
  · rw [if_pos hjoining] at hstep
    split_ifs at hstep
    · cases hstep
      exact .of_eq (processes_congr rfl rfl Iff.rfl (congrArg call hjoining).symm)
    · cases hstep
      exact follows_reap (congrArg call hjoining)
  · rw [if_neg hjoining] at hstep
    split_ifs at hstep with hagain
    cases hstep
    exact follows_reap (congrArg call hagain)

/-- **A step** of the handshake is one of `Processes`, or none. -/
theorem step_follows {e : HandshakeEvent} (h : Reclaimed s) (hstep : s.step e = some s') : Follows s s' := by
  cases e with
  | spawn starts => exact follows_spawn h hstep
  | child fails =>
    simp only [step] at hstep
    split_ifs at hstep with hsignalled
    · cases hstep
      exact follows_exit _ hsignalled.2
    · exact follows_childStep hstep
  | recvEnds exc =>
    simp only [step] at hstep
    split_ifs at hstep
    cases hstep
    exact .of_eq rfl
  | kill code =>
    simp only [step] at hstep
    split_ifs at hstep with halive
    cases hstep
    exact follows_exit _ halive
  | poll => exact follows_poll hstep
  | pollTimeout =>
    simp only [step] at hstep
    split_ifs at hstep with hpolling
    cases hstep
    exact .of_step (processes_ready hpolling.1 false rfl rfl rfl)
  | proceed => exact follows_proceed hstep
  | joined =>
    simp only [step] at hstep
    split_ifs at hstep with hjoining
    cases hstep
    exact follows_reap (hjoining.1.elim (congrArg call) (congrArg call))
  | joinTimeout => exact follows_joinTimeout hstep
  | stopEntry | terminateEntry =>
    simp only [step] at hstep
    split_ifs at hstep
    cases hstep
    exact .of_eq rfl

/-- **The handshake refines** the steps of `tcpdump_start` in `Processes`. -/
theorem run_processes (hrun : Run (fun s e s' => s.step e = some s') init events s) :
    ∃ l, Run (fun s e s' => Processes.step s e = some s') (Processes.init.goto () (.spawning ())) l s.processes := by
  have hinit : init.processes = Processes.init.goto () (.spawning ()) := by
    refine processes_ext rfl ?_ rfl rfl
    funext child
    simp [processes, init, Processes.init, Processes.goto, ChildPhase.Alive]
  rw [← hinit]
  exact hrun.simulate processes Reclaimed (fun _ _ _ h hstep => step_reclaimed h hstep)
    (fun _ _ _ h hstep => step_follows h hstep) reclaimed_init

theorem run_processes_inTime :
    ∃ s l, inTime.foldlM step init = some s ∧
      Run (fun s e s' => Processes.step s e = some s') (Processes.init.goto () (.spawning ())) l s.processes := by
  obtain ⟨l, hl⟩ := run_processes (run_foldlM (l := inTime) rfl)
  exact ⟨_, l, rfl, hl⟩

end Handshake

end SocketServer.Capture
