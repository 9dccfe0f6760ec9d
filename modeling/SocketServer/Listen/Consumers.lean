import SocketServer.Listen.Ownership

/-!
# The consumers of a listener (`cachedata` and requests 171 to 175)

`start_server` starts a thread that runs `cachedata` on the queue of its object, and nothing ends that thread but an
exception of its own. Request 171 calls `start_server` on a new object, or again on the one there is when nobody listens
on its port any more: then the thread of the first call still runs, and two of them take chunks off one queue.

* `single_step` : what one step keeps, as long as 171 finds no consumer left;
* `run_consumers_le` : in a run of such steps there is one consumer at most;
* `started_consumers` : where it does find one, the object has one more in the end.
-/

namespace SocketServer.Listen

inductive ServerEvent
  /-- A step of request 171 or 175, or of the environment. -/
  | host (e : HostEvent)
  /-- `p.start()` raises, which ends `start_server`. -/
  | startRaises
  /-- Request 172. -/
  | cleandata
  /-- Request 173. -/
  | dataWritefile
  /-- Request 174. -/
  | transfer
  /-- `cachedata` of an object raises. -/
  | cachedataRaises (object : Nat)
  deriving DecidableEq, Repr

/-- The host, with the objects and the threads of the server. The objects are numbered, and `ss` is the last one. -/
structure Server where
  host : Host
  objects : Nat
  /-- `start_server` is on its way to its thread. -/
  starting : Bool
  /-- The objects on whose queues the `cachedata` threads work. -/
  threads : List Nat
  deriving DecidableEq, Repr

namespace Server

def init (listening : List Listening) : Server := ⟨.init listening, 0, false, []⟩

/-- `start_server` of this object does not raise before its loop. -/
def resolves (ss : SocketServerListen) : Bool := ss.resolveListeners.isSome

/-- Request 171 up to the loop of `start_server`, if that is called. -/
def start (s : Server) (host : Option Str) (port : Nat) : Option Server := do
  let h ← s.host.start host port
  match s.host.ss with
  | some ss => some { s with host := h, starting := s.host.pid ss.port = [] ∧ resolves ss }
  | none => some { s with host := h, objects := s.objects + 1, starting := resolves ⟨host, port, []⟩ }

/-- The rest of request 171: the thread, and `pid()`. -/
def started (s : Server) : Option Server := do
  let h ← s.host.started
  some { s with host := h, starting := false, threads := if s.starting then s.threads ++ [s.objects] else s.threads }

def startRaises (s : Server) : Option Server :=
  match s.host.place with
  | .starting _ => some { s with host := { s.host with place := .starting [] }, starting := false }
  | _ => none

/-- A request that starts and ends nothing. -/
def answer (s : Server) : Option Server := if s.host.place = .idle then some s else none

def step (s : Server) : ServerEvent → Option Server
  | .host (.start host port) => s.start host port
  | .host .started => s.started
  | .host e => do
    let h ← s.host.step e
    some { s with host := h }
  | .startRaises => s.startRaises
  | .cleandata => s.answer
  | .dataWritefile => s.answer
  | .transfer => s.answer
  | .cachedataRaises object => some { s with threads := s.threads.erase object }

/-- The threads that consume the queue of `ss`. -/
def consumers (s : Server) : Nat := if s.host.ss.isSome then s.threads.count s.objects else 0

/-- This is request 171, `ss` is there, nobody listens on its port, and a thread still consumes its queue. -/
def Restarts (s : Server) : ServerEvent → Prop
  | .host (.start _ _) => ∃ ss ∈ s.host.ss, s.host.pid ss.port = [] ∧ 0 < s.consumers
  | _ => False

instance (s : Server) (e : ServerEvent) : Decidable (s.Restarts e) := by
  unfold Restarts
  split <;> infer_instance

/-- A step that is no such request. -/
def guarded (s : Server) (e : ServerEvent) : Option Server := if ¬s.Restarts e then s.step e else none

end Server

/-! ### One step -/

/-- No object has two threads, none of a later object runs, and the one of `ss` is not started twice. -/
structure Single (s : Server) : Prop where
  threads : ∀ n ∈ s.threads, n ≤ s.objects
  count : s.threads.count s.objects ≤ 1
  starting : s.starting = true → s.objects ∉ s.threads

theorem single_init (listening : List Listening) : Single (.init listening) := ⟨nofun, Nat.zero_le _, nofun⟩

theorem consumers_le {s : Server} (h : Single s) : s.consumers ≤ 1 := by
  rw [Server.consumers]
  split_ifs
  · exact h.count
  · exact Nat.zero_le _

section

variable {s s' : Server} (h : Single s)

include h

theorem Single.of_eq (hobjects : s'.objects = s.objects) (hthreads : s'.threads = s.threads)
    (hstarting : s'.starting = true → s.starting = true) : Single s' where
  threads := by rw [hobjects, hthreads]; exact h.threads
  count := by rw [hobjects, hthreads]; exact h.count
  starting := by rw [hobjects, hthreads]; exact fun hs => h.starting (hstarting hs)

theorem Single.start {host : Option Str} {port : Nat} (hguard : ¬s.Restarts (.host (.start host port)))
    (hstep : s.start host port = some s') : Single s' := by
  unfold Server.start at hstep
  obtain ⟨next, -, hstep⟩ := Option.bind_eq_some_iff.mp hstep
  cases hss : s.host.ss with
  | some ss =>
    rw [hss] at hstep
    obtain rfl := Option.some.inj hstep
    refine ⟨h.threads, h.count, fun hstarting => ?_⟩
    obtain ⟨hpid, -⟩ := of_decide_eq_true hstarting
    -- `start_server` is called again, so nothing consumes the queue.
    intro hmem
    refine hguard ⟨ss, hss, hpid, ?_⟩
    have hcount : s.consumers = s.threads.count s.objects := by simp [Server.consumers, hss]
    rw [hcount]
    exact List.count_pos_iff.mpr hmem
  | none =>
    rw [hss] at hstep
    obtain rfl := Option.some.inj hstep
    have hnew : s.objects + 1 ∉ s.threads := fun hmem => Nat.not_succ_le_self _ (h.threads _ hmem)
    refine ⟨fun n hn => (h.threads n hn).trans (Nat.le_succ _), ?_, fun _ => hnew⟩
    rw [List.count_eq_zero_of_not_mem hnew]
    exact Nat.zero_le 1

theorem Single.started (hstep : s.started = some s') : Single s' := by
  unfold Server.started at hstep
  obtain ⟨next, -, hstep⟩ := Option.bind_eq_some_iff.mp hstep
  obtain rfl := Option.some.inj hstep
  cases hstarting : s.starting with
  | false => exact h.of_eq rfl rfl nofun
  | true =>
    have hnone := h.starting hstarting
    refine ⟨fun n hn => ?_, ?_, nofun⟩
    · rcases List.mem_append.mp hn with hold | hnew
      · exact h.threads n hold
      · exact (List.mem_singleton.mp hnew).le
    · change (s.threads ++ [s.objects]).count s.objects ≤ 1
      rw [List.count_append, List.count_eq_zero_of_not_mem hnone, List.count_singleton_self]

theorem Single.cachedataRaises (n : Nat) : Single { s with threads := s.threads.erase n } where
  threads := fun m hm => h.threads m (List.mem_of_mem_erase hm)
  count := (List.erase_sublist.count_le _).trans h.count
  starting := fun hs hm => h.starting hs (List.mem_of_mem_erase hm)

theorem single_step {e : ServerEvent} (hguard : ¬s.Restarts e) (hstep : s.step e = some s') : Single s' := by
  have hanswer (hs : s.answer = some s') : Single s' := by
    unfold Server.answer at hs
    split_ifs at hs
    obtain rfl := Option.some.inj hs
    exact h
  unfold Server.step at hstep
  split at hstep
  · exact h.start hguard hstep
  · exact h.started hstep
  · obtain ⟨next, -, hstep⟩ := Option.bind_eq_some_iff.mp hstep
    obtain rfl := Option.some.inj hstep
    exact h.of_eq rfl rfl id
  · unfold Server.startRaises at hstep
    split at hstep
    · obtain rfl := Option.some.inj hstep
      exact h.of_eq rfl rfl nofun
    · cases hstep
  · exact hanswer hstep
  · exact hanswer hstep
  · exact hanswer hstep
  · obtain rfl := Option.some.inj hstep
    exact h.cachedataRaises _

end

/-! ### Every run -/

/-- **One consumer at most**: for any sequence of requests, in any environment, as long as no request 171 finds its
object without a listener and with a thread that still consumes its queue. -/
theorem run_consumers_le {listening : List Listening} {events : List ServerEvent} {s : Server}
    (hrun : events.foldlM Server.guarded (.init listening) = some s) : s.consumers ≤ 1 := by
  refine consumers_le ((run_guarded hrun).invariant Single (fun s e s' hs hstep => ?_) (single_init listening))
  exact single_step hs hstep.1 hstep.2

/-- A start, a stop and a start. -/
def startStopStart : List ServerEvent :=
  [.host (.start none 30001), .host (.spawn true), .host (.spawn true), .host .started, .host (.terminate []),
    .host .kill, .host .look, .host (.start none 30001), .host (.spawn true), .host (.spawn true), .host .started]

theorem run_consumers_le_startStopStart :
    ∃ s, startStopStart.foldlM Server.guarded (.init []) = some s ∧ s.consumers ≤ 1 := by
  have hsome : (startStopStart.foldlM Server.guarded (.init [])).isSome = true := by decide +kernel
  obtain ⟨s, hs⟩ := Option.isSome_iff_exists.mp hsome
  exact ⟨s, hs, run_consumers_le hs⟩

/-- **A thread more**: when `start_server` comes to its thread, the object gets one, whatever it has. -/
theorem started_consumers {s s' : Server} (hstarting : s.starting = true) (hstep : s.step (.host .started) = some s') :
    s'.consumers = s.consumers + 1 := by
  change s.started = some s' at hstep
  unfold Server.started at hstep
  obtain ⟨next, hnext, hstep⟩ := Option.bind_eq_some_iff.mp hstep
  obtain rfl := Option.some.inj hstep
  unfold Host.started at hnext
  split at hnext
  · rename_i ss hplace hss
    obtain rfl := Option.some.inj hnext
    simp only [Server.consumers, hss, Option.isSome_some, hstarting, if_true]
    rw [List.count_append, List.count_singleton_self]
  · cases hnext

/-- A start, the death of both children, and a start. -/
def restart : List ServerEvent :=
  [.host (.start none 30001), .host (.spawn true), .host (.spawn true), .host .started,
    .host (.close ⟨.child 0, .inet, List.replicate 4 0, 30001⟩),
    .host (.close ⟨.child 1, .inet6, List.replicate 16 0, 30001⟩),
    .host (.start none 30001), .host (.spawn true), .host (.spawn true), .host .started]

/-- A start on an address that the machine does not have, twice: the bind fails, and nobody listens on the port. -/
def failedBind : List ServerEvent :=
  let host := some "192.0.2.1".toList
  [.host (.start host 30001), .host (.spawn false), .host .started,
    .host (.start host 30001), .host (.spawn false), .host .started]

/-- Two threads consume the queue of one object. -/
theorem consumers_restart :
    (restart.foldlM Server.step (.init [])).map Server.consumers = some 2 ∧
      (failedBind.foldlM Server.step (.init [])).map Server.consumers = some 2 := by
  decide +kernel

end SocketServer.Listen
