import SocketServer.Lib.Transition
import SocketServer.Capture.Pcap

/-!
# Stopping a capture (`_recv_loop`, `stop`)

The receive thread, the kernel that queues frames, and the thread that calls `stop` run beside each other. `step` lets
one of them make its next step: `_stopped` may be set between any two steps of the receive thread, and frames may be
queued at any time.

* `run_passes` : whatever raises, every frame that has arrived is queued or was passed to `_write_packet`, in the order of
  arrival, and what has been written are the first of these;
* `run_receives` : where nothing raises, a thread that has left `_recv_loop` has written all that had arrived at its last
  timeout.
-/

namespace SocketServer.Capture

/-- The two loops of `_recv_loop`. -/
inductive RecvLoop
  /-- `while not self._stopped.is_set()`. -/
  | live
  /-- The one that drains the queue. -/
  | drain
  deriving DecidableEq, Repr

/-- Where the receive thread is. -/
inductive Place
  /-- At the test of the first loop. -/
  | test
  /-- In `recvmsg`. -/
  | receive (loop : RecvLoop)
  /-- In `_write_packet`, with this delivery. -/
  | write (loop : RecvLoop) (d : Delivery)
  /-- Behind the first loop, at the test of `_stopped` and `_exc`. -/
  | behind
  /-- `_recv_loop` has returned. -/
  | exited
  deriving DecidableEq, Repr

/-- Where `break` leads. -/
def RecvLoop.broken : RecvLoop → Place
  | .live => .behind
  | .drain => .exited

/-- Where a timeout leads: the first loop goes on, the second one is left. -/
def RecvLoop.timedOut : RecvLoop → Place
  | .live => .test
  | .drain => .exited

/-- Where the end of a turn leads. -/
def RecvLoop.next : RecvLoop → Place
  | .live => .test
  | .drain => .receive .drain

/-- A capture with its receive thread. -/
structure Receiver where
  place : Place
  stopped : Bool
  /-- `_exc` is set. -/
  exc : Bool
  /-- The queue of the socket. -/
  queue : List Delivery
  /-- What has arrived. -/
  arrived : List Delivery
  /-- What was passed to `_write_packet`. -/
  passed : List Delivery
  /-- What `_write_packet` has written. -/
  written : List Delivery
  /-- What had arrived when a `recvmsg` last timed out. -/
  atTimeout : Option (List Delivery)
  deriving DecidableEq, Repr

inductive ReceiverEvent
  /-- A frame arrives and is queued. -/
  | arrive (d : Delivery)
  /-- `stop` sets `_stopped`. -/
  | stop
  /-- The thread looks at `_stopped`. -/
  | look
  /-- `recvmsg` returns the first frame of the queue. Its time is decoded, its tag restored, and it is passed to
  `_write_packet`, all of which concerns no other thread. -/
  | receive
  /-- `recvmsg` times out, which it does only with an empty queue. -/
  | timeout
  /-- `recvmsg` raises an `OSError`, which may be `ENETDOWN` or `ENODEV`. -/
  | osError (unavailable : Bool)
  /-- `_write_packet` returns. -/
  | write
  /-- It raises. -/
  | writeRaises
  deriving DecidableEq, Repr

namespace Receiver

/-- A thread at its first test, with a queue that frames may have come into since `bind`. -/
def init (queue : List Delivery) : Receiver := ⟨.test, false, false, queue, queue, [], [], none⟩

def look (s : Receiver) : Option Receiver :=
  match s.place with
  | .test => some { s with place := if s.stopped then .behind else .receive .live }
  | .behind => some { s with place := if s.stopped && !s.exc then .receive .drain else .exited }
  | _ => none

def receive (s : Receiver) : Option Receiver :=
  match s.place, s.queue with
  | .receive loop, d :: queue =>
    -- `if not data: break`
    if d.data = [] then some { s with place := loop.broken, queue := queue }
    else some { s with place := .write loop d, queue := queue, passed := s.passed ++ [d] }
  | _, _ => none

def timeout (s : Receiver) : Option Receiver :=
  match s.place, s.queue with
  | .receive loop, [] => some { s with place := loop.timedOut, atTimeout := some s.arrived }
  | _, _ => none

/-- The second loop does not set `_exc`. -/
def osError (s : Receiver) (unavailable : Bool) : Option Receiver :=
  match s.place with
  | .receive loop => some { s with place := loop.broken, exc := s.exc || loop = .live && unavailable }
  | _ => none

def write (s : Receiver) : Option Receiver :=
  match s.place with
  | .write loop d => some { s with place := loop.next, written := s.written ++ [d] }
  | _ => none

def writeRaises (s : Receiver) : Option Receiver :=
  match s.place with
  | .write loop _ => some { s with place := .exited, exc := s.exc || loop = .live }
  | _ => none

/-- The next step of the thread, `none` if it is elsewhere. -/
def step (s : Receiver) : ReceiverEvent → Option Receiver
  | .arrive d => some { s with queue := s.queue ++ [d], arrived := s.arrived ++ [d] }
  | .stop => some { s with stopped := true }
  | .look => s.look
  | .receive => s.receive
  | .timeout => s.timeout
  | .osError unavailable => s.osError unavailable
  | .write => s.write
  | .writeRaises => s.writeRaises

end Receiver

/-- No error, and no empty frame. -/
def ReceiverEvent.Sound : ReceiverEvent → Prop
  | .arrive d => d.data ≠ []
  | .osError _ => False
  | .writeRaises => False
  | _ => True

/-! ### What every step keeps -/

/-- What is passed and not yet written. -/
def Place.inHand : Place → List Delivery
  | .write _ d => [d]
  | _ => []

/-- The thread is at a place that only a stop leads to. -/
def Place.stopping : Place → Bool
  | .behind => true
  | .receive .drain => true
  | .write .drain _ => true
  | .exited => true
  | _ => false

/-- A frame that arrives is not empty. -/
def ReceiverEvent.Framed : ReceiverEvent → Prop
  | .arrive d => d.data ≠ []
  | _ => True

/-- Nothing is lost or out of order. -/
structure Passes (s : Receiver) : Prop where
  order : s.passed ++ s.queue = s.arrived
  frames : ∀ d ∈ s.queue, d.data ≠ []
  inHand : s.place ≠ .exited → s.written ++ s.place.inHand = s.passed
  written : s.written <+: s.passed

theorem passes_init {queue : List Delivery} (h : ∀ d ∈ queue, d.data ≠ []) : Passes (.init queue) :=
  ⟨rfl, h, fun _ => rfl, List.prefix_refl _⟩

section

variable {s s' : Receiver} (h : Passes s)

include h

theorem Passes.written_eq (hhand : s.place.inHand = []) (hplace : s.place ≠ .exited) : s.written = s.passed := by
  have hwritten := h.inHand hplace
  rwa [hhand, List.append_nil] at hwritten

theorem Passes.go {place : Place} {exc : Bool} {atTimeout : Option (List Delivery)} (hhand : s.place.inHand = [])
    (hplace : s.place ≠ .exited) (hhand' : place.inHand = []) :
    Passes { s with place := place, exc := exc, atTimeout := atTimeout } := by
  refine ⟨h.order, h.frames, fun _ => ?_, h.written⟩
  show s.written ++ place.inHand = s.passed
  rw [hhand', List.append_nil, h.written_eq hhand hplace]

theorem Passes.arrive {d : Delivery} (hd : d.data ≠ []) :
    Passes { s with queue := s.queue ++ [d], arrived := s.arrived ++ [d] } := by
  refine ⟨?_, List.forall_mem_append.mpr ⟨h.frames, List.forall_mem_singleton.mpr hd⟩, h.inHand, h.written⟩
  show s.passed ++ (s.queue ++ [d]) = s.arrived ++ [d]
  rw [← List.append_assoc, h.order]

theorem Passes.look (hstep : s.look = some s') : Passes s' := by
  unfold Receiver.look at hstep
  split at hstep
  · rename_i hplace
    obtain rfl := Option.some.inj hstep
    exact h.go (by rw [hplace]; rfl) (by rw [hplace]; nofun) (by split_ifs <;> rfl)
  · rename_i hplace
    obtain rfl := Option.some.inj hstep
    exact h.go (by rw [hplace]; rfl) (by rw [hplace]; nofun) (by split_ifs <;> rfl)
  · cases hstep

theorem Passes.receive (hstep : s.receive = some s') :
    Passes s' ∧ ∃ loop d, s.place = .receive loop ∧ s'.place = .write loop d ∧ s'.exc = s.exc ∧
      s'.stopped = s.stopped := by
  unfold Receiver.receive at hstep
  split at hstep
  · rename_i loop d queue hplace hqueue
    have horder := h.order
    have hframes := h.frames
    have hwritten := h.written_eq (by rw [hplace]; rfl) (by rw [hplace]; nofun)
    rw [hqueue] at hframes horder
    rw [if_neg (hframes d List.mem_cons_self)] at hstep
    obtain rfl := Option.some.inj hstep
    refine ⟨⟨?_, fun d' hd' => hframes d' (List.mem_cons_of_mem d hd'), fun _ => ?_, ?_⟩, loop, d, hplace, rfl, rfl, rfl⟩
    · rw [← horder, List.append_assoc]
      rfl
    · show s.written ++ [d] = s.passed ++ [d]
      rw [hwritten]
    · exact h.written.trans (List.prefix_append _ _)
  · cases hstep

theorem Passes.timeout (hstep : s.timeout = some s') : Passes s' := by
  unfold Receiver.timeout at hstep
  split at hstep
  · rename_i loop hplace hqueue
    obtain rfl := Option.some.inj hstep
    exact h.go (by rw [hplace]; rfl) (by rw [hplace]; nofun) (by cases loop <;> rfl)
  · cases hstep

theorem Passes.osError {unavailable : Bool} (hstep : s.osError unavailable = some s') : Passes s' := by
  unfold Receiver.osError at hstep
  split at hstep
  · rename_i loop hplace
    obtain rfl := Option.some.inj hstep
    exact h.go (by rw [hplace]; rfl) (by rw [hplace]; nofun) (by cases loop <;> rfl)
  · cases hstep

theorem Passes.write (hstep : s.write = some s') : Passes s' := by
  unfold Receiver.write at hstep
  split at hstep
  · rename_i loop d hplace
    obtain rfl := Option.some.inj hstep
    have hwritten := h.inHand (by rw [hplace]; nofun)
    rw [hplace] at hwritten
    refine ⟨h.order, h.frames, fun _ => ?_, ?_⟩
    · show s.written ++ [d] ++ loop.next.inHand = s.passed
      rw [← hwritten]
      cases loop <;> exact List.append_nil _
    · show s.written ++ [d] <+: s.passed
      rw [← hwritten]
      exact List.prefix_refl _
  · cases hstep

theorem Passes.writeRaises (hstep : s.writeRaises = some s') : Passes s' := by
  unfold Receiver.writeRaises at hstep
  split at hstep
  · obtain rfl := Option.some.inj hstep
    exact ⟨h.order, h.frames, fun hplace => absurd rfl hplace, h.written⟩
  · cases hstep

theorem Passes.step {e : ReceiverEvent} (he : e.Framed) (hstep : s.step e = some s') : Passes s' := by
  cases e with
  | arrive d =>
    obtain rfl := Option.some.inj hstep
    exact h.arrive he
  | stop =>
    obtain rfl := Option.some.inj hstep
    exact ⟨h.order, h.frames, h.inHand, h.written⟩
  | look => exact h.look hstep
  | receive => exact (h.receive hstep).1
  | timeout => exact h.timeout hstep
  | osError unavailable => exact h.osError hstep
  | write => exact h.write hstep
  | writeRaises => exact h.writeRaises hstep

end

/-- Where nothing raises, the thread exits at a timeout. -/
structure Receives (s : Receiver) : Prop where
  passes : Passes s
  exc : s.exc = false
  stopped : s.place.stopping = true → s.stopped = true
  exited : s.place = .exited → s.written = s.passed ∧ s.atTimeout = some s.written

theorem receives_init {queue : List Delivery} (h : ∀ d ∈ queue, d.data ≠ []) : Receives (.init queue) :=
  ⟨passes_init h, rfl, nofun, nofun⟩

section

variable {s s' : Receiver} (h : Receives s)

include h

theorem Receives.look (hstep : s.look = some s') : Receives s' := by
  have hpasses := h.passes.look hstep
  unfold Receiver.look at hstep
  split at hstep
  · obtain rfl := Option.some.inj hstep
    by_cases hstopped : s.stopped = true
    · rw [if_pos hstopped] at hpasses ⊢
      exact ⟨hpasses, h.exc, fun _ => hstopped, nofun⟩
    · rw [if_neg hstopped] at hpasses ⊢
      exact ⟨hpasses, h.exc, nofun, nofun⟩
  · rename_i hplace
    obtain rfl := Option.some.inj hstep
    have hstopped : s.stopped = true := h.stopped (by rw [hplace]; rfl)
    rw [if_pos (by rw [hstopped, h.exc]; rfl)] at hpasses ⊢
    exact ⟨hpasses, h.exc, fun _ => hstopped, nofun⟩
  · cases hstep

theorem Receives.receive (hstep : s.receive = some s') : Receives s' := by
  obtain ⟨hpasses, loop, d, hplace, hplace', hexc, hstopped'⟩ := h.passes.receive hstep
  have hstopped := h.stopped
  rw [hplace] at hstopped
  refine ⟨hpasses, hexc.trans h.exc, ?_, fun hexited => ?_⟩
  · rw [hplace', hstopped']
    cases loop with
    | live => exact nofun
    | drain => exact hstopped
  · rw [hplace'] at hexited
    cases hexited

/-- A timeout finds an empty queue: all that has arrived was passed on. -/
theorem Receives.timeout (hstep : s.timeout = some s') : Receives s' := by
  have hpasses := h.passes.timeout hstep
  unfold Receiver.timeout at hstep
  split at hstep
  · rename_i loop hplace hqueue
    have horder := h.passes.order
    have hwritten := h.passes.written_eq (by rw [hplace]; rfl) (by rw [hplace]; nofun)
    have hstopped := h.stopped
    rw [hqueue, List.append_nil] at horder
    rw [hplace] at hstopped
    obtain rfl := Option.some.inj hstep
    refine ⟨hpasses, h.exc, ?_, fun _ => ⟨hwritten, ?_⟩⟩
    · cases loop with
      | live => exact nofun
      | drain => exact fun _ => hstopped rfl
    · show some s.arrived = some s.written
      rw [hwritten, horder]
  · cases hstep

theorem Receives.write (hstep : s.write = some s') : Receives s' := by
  have hpasses := h.passes.write hstep
  unfold Receiver.write at hstep
  split at hstep
  · rename_i loop d hplace
    have hstopped := h.stopped
    rw [hplace] at hstopped
    obtain rfl := Option.some.inj hstep
    cases loop with
    | live => exact ⟨hpasses, h.exc, nofun, nofun⟩
    | drain => exact ⟨hpasses, h.exc, fun _ => hstopped rfl, nofun⟩
  · cases hstep

theorem Receives.step {e : ReceiverEvent} (he : e.Sound) (hstep : s.step e = some s') : Receives s' := by
  cases e with
  | arrive d =>
    obtain rfl := Option.some.inj hstep
    exact ⟨h.passes.arrive he, h.exc, h.stopped, h.exited⟩
  | stop =>
    obtain rfl := Option.some.inj hstep
    exact ⟨⟨h.passes.order, h.passes.frames, h.passes.inHand, h.passes.written⟩, h.exc, fun _ => rfl, h.exited⟩
  | look => exact h.look hstep
  | receive => exact h.receive hstep
  | timeout => exact h.timeout hstep
  | osError unavailable => exact he.elim
  | write => exact h.write hstep
  | writeRaises => exact he.elim

end

/-- **Receiving and stopping.** In every run without errors and empty frames, from a queue without empty frames: what was
passed to `_write_packet` and what is queued is what has arrived, in the order of arrival; and when the thread has left
`_recv_loop`, it was stopped, and it has written, once each, the frames that had arrived when its last `recvmsg` timed
out. -/
theorem run_receives {queue : List Delivery} (hqueue : ∀ d ∈ queue, d.data ≠ []) {events : List ReceiverEvent}
    (hsound : ∀ e ∈ events, e.Sound) {s : Receiver} (hrun : events.foldlM Receiver.step (.init queue) = some s) :
    s.passed ++ s.queue = s.arrived ∧
      (s.place = .exited → s.stopped = true ∧ s.atTimeout = some s.written) := by
  have h : Receives s :=
    foldlM_invariant Receives (fun _ _ _ hs he hstep => hs.step he hstep) hrun hsound (receives_init hqueue)
  exact ⟨h.passes.order, fun hexited => ⟨h.stopped (by rw [hexited]; rfl), (h.exited hexited).2⟩⟩

/-- Two frames, one before the stop and one behind it. -/
def frameBefore : Delivery := ⟨[1], [], 7⟩

def frameBehind : Delivery := ⟨[2], [], 8⟩

def stopBetween : List ReceiverEvent :=
  [.look, .arrive frameBefore, .stop, .receive, .arrive frameBehind, .write, .look, .look, .receive, .write, .timeout]

def stopBetweenEnd : Receiver where
  place := .exited
  stopped := true
  exc := false
  queue := []
  arrived := [frameBefore, frameBehind]
  passed := [frameBefore, frameBehind]
  written := [frameBefore, frameBehind]
  atTimeout := some [frameBefore, frameBehind]

theorem run_receives_stopBetween :
    stopBetween.foldlM Receiver.step (.init []) = some stopBetweenEnd ∧
      stopBetweenEnd.passed ++ stopBetweenEnd.queue = stopBetweenEnd.arrived ∧
      (stopBetweenEnd.place = .exited →
        stopBetweenEnd.stopped = true ∧ stopBetweenEnd.atTimeout = some stopBetweenEnd.written) := by
  have hqueue : ∀ d ∈ ([] : List Delivery), d.data ≠ [] := List.forall_mem_nil _
  have hsound : ∀ e ∈ stopBetween, e.Sound := by
    simp [stopBetween, ReceiverEvent.Sound, frameBefore, frameBehind]
  exact ⟨rfl, run_receives hqueue hsound rfl⟩

end SocketServer.Capture
