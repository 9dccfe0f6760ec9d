import SocketServer.Lib.Inet
import SocketServer.Lib.Transition

/-!
# Whom `stop_server` kills

Requests 171 and 175 start and stop listener children, in an environment in which other processes begin and cease to
listen at any time. `stop_server` terminates the children of the object, and then kills every process that `pid()` finds
on its port. `step` makes one step of a request, or of the environment.

* `numbered_step` : what one step keeps;
* `run_owned_iff` : in a run, only children that `start_server` spawned are killed if and only if, at every kill, only
  such children listen on the port.
-/

namespace SocketServer.Listen

open Bytes

inductive Family
  | inet
  | inet6
  deriving DecidableEq, Repr

structure Endpoint where
  family : Family
  host : Bytes
  port : Nat
  deriving DecidableEq, Repr

/-- Only one of the two can listen: the same family and port, and the same address or one that stands for all. -/
def Endpoint.Conflicts (e e' : Endpoint) : Prop :=
  e.family = e'.family ∧ e.port = e'.port ∧ (e.host = e'.host ∨ (∀ b ∈ e.host, b = 0) ∨ ∀ b ∈ e'.host, b = 0)

instance (e e' : Endpoint) : Decidable (e.Conflicts e') :=
  haveI (s : Bytes) : Decidable (∀ b ∈ s, b = 0) := List.decidableBAll _ s
  inferInstanceAs (Decidable (_ ∧ _ ∧ (_ ∨ _ ∨ _)))

inductive Proc
  | server
  /-- The children of all `start_server` calls are numbered in the order in which they start. -/
  | child (n : Nat)
  | other (n : Nat)
  deriving DecidableEq, Repr

/-- A listening socket. -/
structure Listening where
  proc : Proc
  endpoint : Endpoint
  deriving DecidableEq, Repr

/-- `SocketServerListen`. -/
structure SocketServerListen where
  host : Option Str
  port : Nat
  processes : List Nat
  deriving DecidableEq, Repr

/-- `detect_ip_version`, with the address. -/
def detectIpVersion (host : Str) : Option (Family × Bytes) :=
  match Inet.inetPton6 host with
  | some addr => some (.inet6, addr)
  | none => (Inet.inetPton4 host).map fun addr => (.inet, addr)

/-- `_resolve_listeners`, `none` if it raises. -/
def SocketServerListen.resolveListeners (ss : SocketServerListen) : Option (List Endpoint) :=
  match ss.host with
  | none => some [⟨.inet, List.replicate 4 0, ss.port⟩, ⟨.inet6, List.replicate 16 0, ss.port⟩]
  | some host => (detectIpVersion host).map fun a => [⟨a.1, a.2, ss.port⟩]

/-- Where the server is. -/
inductive Place
  /-- Between requests. -/
  | idle
  /-- 171, with these listeners still to start. -/
  | starting (listeners : List Endpoint)
  /-- 175, before `pid()` of `stop_server`. -/
  | killing
  /-- 175, with so many looks at `pid()` left. -/
  | looking (left : Nat)
  /-- Killed. -/
  | dead
  deriving DecidableEq, Repr

inductive Answer
  | pids (ps : List Proc)
  | ok
  /-- `未启动监听`. -/
  | notStarted
  /-- `停止监听失败，端口仍被占用`. -/
  | stillOccupied
  deriving DecidableEq, Repr

inductive HostEvent
  /-- A process that is no listener child begins to listen. -/
  | listen (l : Listening)
  /-- A listening socket is closed, or its process ends. -/
  | close (l : Listening)
  /-- Request 171. -/
  | start (host : Option Str) (port : Nat)
  /-- `p.start()`; the child listens, or fails to. -/
  | spawn (binds : Bool)
  | started
  /-- Request 175 up to `self._processes.clear()`; these children still listen then, with a `kill` under way. -/
  | terminate (late : List Nat)
  /-- `kill -9` of all that `pid()` finds. -/
  | kill
  /-- A look at `pid()` after `stop_server`. -/
  | look
  deriving DecidableEq, Repr

/-- The sockets that listen on the host, the number of children so far, and `ss`. -/
structure Host where
  listening : List Listening
  next : Nat
  ss : Option SocketServerListen
  place : Place
  /-- The processes that `stop_server` has terminated or killed. -/
  killed : List Proc
  answers : List Answer
  deriving DecidableEq, Repr

namespace Host

def init (listening : List Listening) : Host := ⟨listening, 0, none, .idle, [], []⟩

/-- `pid()` of a listener on this port. -/
def pid (s : Host) (port : Nat) : List Proc :=
  (s.listening.filter fun l => l.endpoint.port = port).map Listening.proc

def Occupied (s : Host) (e : Endpoint) : Prop := ∃ l ∈ s.listening, l.endpoint.Conflicts e

instance (s : Host) (e : Endpoint) : Decidable (s.Occupied e) := by unfold Occupied; infer_instance

def listen (s : Host) (l : Listening) : Option Host :=
  match l.proc with
  | .child _ => none
  | _ => if s.Occupied l.endpoint then none else some { s with listening := s.listening ++ [l] }

def close (s : Host) (l : Listening) : Option Host := some { s with listening := s.listening.erase l }

/-- `start_server` up to its loop; an exception is only logged. -/
def startServer (s : Host) (ss : SocketServerListen) : Host :=
  { s with ss := some ss, place := .starting (ss.resolveListeners.getD []) }

def start (s : Host) (host : Option Str) (port : Nat) : Option Host :=
  if s.place = .idle then
    match s.ss with
    | some ss => if s.pid ss.port ≠ [] then some { s with place := .starting [] } else some (s.startServer ss)
    | none => some (s.startServer ⟨host, port, []⟩)
  else none

/-- The child binds to a free endpoint only. -/
def spawn (s : Host) (binds : Bool) : Option Host :=
  match s.place, s.ss with
  | .starting (e :: listeners), some ss =>
    if binds ∧ s.Occupied e then none
    else some { s with
      next := s.next + 1
      ss := some { ss with processes := ss.processes ++ [s.next] }
      listening := if binds then s.listening ++ [⟨.child s.next, e⟩] else s.listening
      place := .starting listeners }
  | _, _ => none

def started (s : Host) : Option Host :=
  match s.place, s.ss with
  | .starting [], some ss => some { s with place := .idle, answers := s.answers ++ [.pids (s.pid ss.port)] }
  | _, _ => none

/-- The process is among these children. -/
def isAmong (children : List Nat) : Proc → Bool
  | .child n => children.contains n
  | _ => false

/-- `p.is_alive()` : a child that does not listen has ended. -/
def isAlive (s : Host) (child : Nat) : Bool := s.listening.any fun l => l.proc = .child child

def terminate (s : Host) (late : List Nat) : Option Host :=
  if s.place = .idle then
    match s.ss with
    | some ss => some { s with
        listening := s.listening.filter fun l => !isAmong ss.processes l.proc || isAmong late l.proc
        ss := some { ss with processes := [] }
        killed := s.killed ++ (ss.processes.filter s.isAlive).map Proc.child
        place := .killing }
    | none => some { s with answers := s.answers ++ [.notStarted] }
  else none

/-- The server kills no more after itself. -/
def killSequence (ps : List Proc) : List Proc :=
  if Proc.server ∈ ps then ps.takeWhile (· ≠ .server) ++ [.server] else ps

def kill (s : Host) : Option Host :=
  match s.place, s.ss with
  | .killing, some ss =>
    let ps := killSequence (s.pid ss.port)
    some { s with
      killed := s.killed ++ ps
      listening := s.listening.filter fun l => l.proc ∉ ps
      place := if Proc.server ∈ ps then .dead else .looking 3 }
  | _, _ => none

def look (s : Host) : Option Host :=
  match s.place, s.ss with
  | .looking (left + 1), some ss =>
    if s.pid ss.port = [] then some { s with place := .idle, ss := none, answers := s.answers ++ [.ok] }
    else if left = 0 then some { s with place := .idle, ss := none, answers := s.answers ++ [.stillOccupied] }
    else some { s with place := .looking left }
  | _, _ => none

def step (s : Host) : HostEvent → Option Host
  | .listen l => s.listen l
  | .close l => s.close l
  | .start host port => s.start host port
  | .spawn binds => s.spawn binds
  | .started => s.started
  | .terminate late => s.terminate late
  | .kill => s.kill
  | .look => s.look

end Host

/-! ### Whose sockets listen -/

/-- A listener process that some `start_server` call of this server spawned. -/
def Host.Spawned (s : Host) (p : Proc) : Prop := ∃ n < s.next, p = .child n

/-- Every process killed is a listener process of this server. -/
def Host.Owned (s : Host) : Prop := ∀ p ∈ s.killed, s.Spawned p

/-- Nobody else listens on the port of `ss`: not another process, and not the server. -/
def Host.Unshared (s : Host) : Prop :=
  ∀ ss ∈ s.ss, ∀ l ∈ s.listening, l.endpoint.port = ss.port → ∃ n, l.proc = .child n

/-- All killed are listener children. -/
def Host.OnlyChildren (s : Host) : Prop := ∀ p ∈ s.killed, ∃ n, p = .child n

/-- The children that listen, belong to `ss` or were killed are among those that were started. -/
structure Numbered (s : Host) : Prop where
  listening : ∀ l ∈ s.listening, ∀ n, l.proc = .child n → n < s.next
  processes : ∀ ss ∈ s.ss, ∀ n ∈ ss.processes, n < s.next
  killed : ∀ n, .child n ∈ s.killed → n < s.next

theorem numbered_init {listening : List Listening} (henv : ∀ l ∈ listening, ∀ n, l.proc ≠ .child n) :
    Numbered (.init listening) where
  listening := fun l hl n hn => absurd hn (henv l hl n)
  processes := nofun
  killed := nofun

theorem mem_pid {s : Host} {port : Nat} {p : Proc} :
    p ∈ s.pid port ↔ ∃ l ∈ s.listening, l.endpoint.port = port ∧ l.proc = p := by
  simp [Host.pid, and_assoc]

theorem killSequence_subset {ps : List Proc} : Host.killSequence ps ⊆ ps := by
  intro p hp
  unfold Host.killSequence at hp
  split_ifs at hp with hserver
  · rcases List.mem_append.mp hp with hbefore | hlast
    · exact (List.takeWhile_prefix _).subset hbefore
    · rwa [List.mem_singleton.mp hlast]
  · exact hp

theorem server_mem_killSequence {ps : List Proc} (h : .server ∈ ps) : .server ∈ Host.killSequence ps := by
  rw [Host.killSequence, if_pos h]
  exact List.mem_append_right _ (List.mem_singleton_self _)

theorem forall_killSequence {ps : List Proc} :
    (∀ p ∈ Host.killSequence ps, ∃ n, p = .child n) ↔ ∀ p ∈ ps, ∃ n, p = .child n := by
  by_cases hserver : .server ∈ ps
  · refine ⟨fun h => ?_, fun h p hp => h p (killSequence_subset hp)⟩
    obtain ⟨n, hn⟩ := h _ (server_mem_killSequence hserver)
    cases hn
  · rw [Host.killSequence, if_neg hserver]

/-! ### One step -/

section

variable {s s' : Host} (h : Numbered s)

include h

theorem Numbered.of_subset (hsub : s'.listening ⊆ s.listening) (hnext : s'.next = s.next)
    (hprocesses : ∀ ss ∈ s'.ss, ∀ n ∈ ss.processes, n < s.next) (hkilled : s'.killed = s.killed) : Numbered s' where
  listening := fun l hl n hn => hnext ▸ h.listening l (hsub hl) n hn
  processes := fun ss hss n hn => hnext ▸ hprocesses ss hss n hn
  killed := fun n hn => hnext ▸ h.killed n (hkilled ▸ hn)

theorem Numbered.listen {l : Listening} (hstep : s.listen l = some s') :
    Numbered s' ∧ s'.killed = s.killed := by
  unfold Host.listen at hstep
  split at hstep
  · cases hstep
  · rename_i hproc
    split_ifs at hstep
    obtain rfl := Option.some.inj hstep
    refine ⟨⟨fun l' hl' n hn => ?_, h.processes, h.killed⟩, rfl⟩
    rcases List.mem_append.mp hl' with hold | hnew
    · exact h.listening l' hold n hn
    · rw [List.mem_singleton.mp hnew] at hn
      exact absurd hn (hproc n)

theorem Numbered.start {host : Option Str} {port : Nat} (hstep : s.start host port = some s') :
    Numbered s' ∧ s'.killed = s.killed := by
  unfold Host.start at hstep
  split_ifs at hstep
  split at hstep
  · rename_i ss hss
    have hprocesses : ∀ ss' ∈ some ss, ∀ n ∈ ss'.processes, n < s.next := hss ▸ h.processes
    split_ifs at hstep
    all_goals obtain rfl := Option.some.inj hstep
    · exact ⟨h.of_subset (List.Subset.refl _) rfl h.processes rfl, rfl⟩
    · exact ⟨h.of_subset (List.Subset.refl _) rfl hprocesses rfl, rfl⟩
  · obtain rfl := Option.some.inj hstep
    refine ⟨h.of_subset (List.Subset.refl _) rfl ?_ rfl, rfl⟩
    rintro _ ⟨⟩ n hn
    cases hn

theorem Numbered.spawn {binds : Bool} (hstep : s.spawn binds = some s') :
    Numbered s' ∧ s'.killed = s.killed := by
  unfold Host.spawn at hstep
  split at hstep
  · rename_i e listeners ss hplace hss
    have hprocesses : ∀ n ∈ ss.processes ++ [s.next], n < s.next + 1 := by
      intro n hn
      rcases List.mem_append.mp hn with hold | hnew
      · exact Nat.lt_succ_of_lt (h.processes ss hss n hold)
      · rw [List.mem_singleton.mp hnew]
        exact Nat.lt_succ_self s.next
    split_ifs at hstep
    all_goals
      obtain rfl := Option.some.inj hstep
      refine ⟨⟨fun l hl n hn => ?_, ?_, fun n hn => Nat.lt_succ_of_lt (h.killed n hn)⟩, rfl⟩
      pick_goal 2
      · rintro _ ⟨⟩
        exact hprocesses
    · rcases List.mem_append.mp hl with hold | hnew
      · exact Nat.lt_succ_of_lt (h.listening l hold n hn)
      · rw [List.mem_singleton.mp hnew] at hn
        obtain rfl := Proc.child.inj hn
        exact Nat.lt_succ_self s.next
    · exact Nat.lt_succ_of_lt (h.listening l hl n hn)
  · cases hstep

theorem Numbered.started (hstep : s.started = some s') : Numbered s' ∧ s'.killed = s.killed := by
  unfold Host.started at hstep
  split at hstep
  · obtain rfl := Option.some.inj hstep
    exact ⟨h.of_subset (List.Subset.refl _) rfl h.processes rfl, rfl⟩
  · cases hstep

theorem Numbered.terminate {late : List Nat} (hstep : s.terminate late = some s') :
    Numbered s' ∧ (s'.OnlyChildren ↔ s.OnlyChildren) := by
  unfold Host.terminate at hstep
  split_ifs at hstep
  split at hstep
  · rename_i ss hss
    obtain rfl := Option.some.inj hstep
    refine ⟨⟨fun l hl => h.listening l (List.mem_of_mem_filter hl), ?_, fun n hn => ?_⟩, ?_⟩
    · rintro _ ⟨⟩ n hn
      cases hn
    · rcases List.mem_append.mp hn with hold | hnew
      · exact h.killed n hold
      · obtain ⟨n', hn', heq⟩ := List.mem_map.mp hnew
        obtain rfl := Proc.child.inj heq
        exact h.processes ss hss n' (List.mem_of_mem_filter hn')
    · have hchildren : ∀ p ∈ (ss.processes.filter s.isAlive).map Proc.child, ∃ n, p = .child n := by
        intro p hp
        obtain ⟨n, -, rfl⟩ := List.mem_map.mp hp
        exact ⟨n, rfl⟩
      exact List.forall_mem_append.trans (and_iff_left hchildren)
  · obtain rfl := Option.some.inj hstep
    exact ⟨h.of_subset (List.Subset.refl _) rfl h.processes rfl, Iff.rfl⟩

theorem Numbered.look (hstep : s.look = some s') : Numbered s' ∧ s'.killed = s.killed := by
  unfold Host.look at hstep
  split at hstep
  · split_ifs at hstep
    all_goals obtain rfl := Option.some.inj hstep
    · exact ⟨h.of_subset (List.Subset.refl _) rfl nofun rfl, rfl⟩
    · exact ⟨h.of_subset (List.Subset.refl _) rfl nofun rfl, rfl⟩
    · exact ⟨h.of_subset (List.Subset.refl _) rfl h.processes rfl, rfl⟩
  · cases hstep

theorem Numbered.kill (hstep : s.kill = some s') :
    Numbered s' ∧ ∃ ss, s.ss = some ss ∧ s'.killed = s.killed ++ Host.killSequence (s.pid ss.port) := by
  unfold Host.kill at hstep
  split at hstep
  · rename_i ss hplace hss
    obtain rfl := Option.some.inj hstep
    refine ⟨⟨fun l hl n hn => h.listening l (List.mem_of_mem_filter hl) n hn, h.processes, fun n hn => ?_⟩,
      ss, hss, rfl⟩
    rcases List.mem_append.mp hn with hold | hnew
    · exact h.killed n hold
    · obtain ⟨l, hl, -, hproc⟩ := mem_pid.mp (killSequence_subset hnew)
      exact h.listening l hl n hproc
  · cases hstep

/-- Nothing but children is killed, except by `kill`. -/
theorem numbered_step {e : HostEvent} (hstep : s.step e = some s') :
    Numbered s' ∧ (e ≠ .kill → (s'.OnlyChildren ↔ s.OnlyChildren)) := by
  have hsame : Numbered s' ∧ s'.killed = s.killed →
      Numbered s' ∧ (e ≠ .kill → (s'.OnlyChildren ↔ s.OnlyChildren)) := by
    rintro ⟨h', hkilled⟩
    refine ⟨h', fun _ => ?_⟩
    rw [Host.OnlyChildren, Host.OnlyChildren, hkilled]
  cases e with
  | listen l => exact hsame (h.listen hstep)
  | close l =>
    obtain rfl := Option.some.inj hstep
    exact hsame ⟨h.of_subset List.erase_subset rfl h.processes rfl, rfl⟩
  | start host port => exact hsame (h.start hstep)
  | spawn binds => exact hsame (h.spawn hstep)
  | started => exact hsame (h.started hstep)
  | terminate late => exact (h.terminate hstep).imp_right fun hchildren _ => hchildren
  | kill => exact ⟨(h.kill hstep).1, fun hkill => absurd rfl hkill⟩
  | look => exact hsame (h.look hstep)

theorem Numbered.owned_iff : s.Owned ↔ s.OnlyChildren := by
  refine ⟨fun howned p hp => ?_, fun hchildren p hp => ?_⟩
  · obtain ⟨n, -, hn⟩ := howned p hp
    exact ⟨n, hn⟩
  · obtain ⟨n, rfl⟩ := hchildren p hp
    exact ⟨n, h.killed n hp, rfl⟩

/-- A step keeps the server to its own children if and only if it is no kill on a shared port. -/
theorem Numbered.owned_step {e : HostEvent} (hstep : s.step e = some s') :
    s'.Owned ↔ s.Owned ∧ (e = .kill → s.Unshared) := by
  obtain ⟨h', hother⟩ := numbered_step h hstep
  rw [h.owned_iff, h'.owned_iff]
  by_cases he : e = .kill
  · subst he
    obtain ⟨-, ss, hss, hkill⟩ := h.kill hstep
    rw [Host.OnlyChildren, hkill, List.forall_mem_append, forall_killSequence]
    refine and_congr_right fun _ => ⟨fun hpid _ ss' hss' l hl hport => ?_, fun hshared p hp => ?_⟩
    · obtain rfl : ss' = ss := Option.some.inj (hss'.symm.trans hss)
      exact hpid _ (mem_pid.mpr ⟨l, hl, hport, rfl⟩)
    · obtain ⟨l, hl, hport, rfl⟩ := mem_pid.mp hp
      exact hshared rfl ss hss l hl hport
  · rw [hother he]
    exact (and_iff_left fun hkill => absurd hkill he).symm

end

/-! ### Every run -/

/-- **Only its own**: in any environment and for any sequence of requests, the server kills nothing but listener
processes that it spawned if and only if, whenever it kills, nobody else listens on the port. -/
theorem run_owned_iff {listening : List Listening} (henv : ∀ l ∈ listening, ∀ n, l.proc ≠ .child n)
    {events : List HostEvent} {s : Host} (hrun : events.foldlM Host.step (.init listening) = some s) :
    s.Owned ↔ ∀ before s₀, before ++ [.kill] <+: events → before.foldlM Host.step (.init listening) = some s₀ →
      s₀.Unshared := by
  have howned : (Host.init listening).Owned := nofun
  rw [foldlM_iff Numbered (fun _ _ _ h hstep => (numbered_step h hstep).1)
    (fun _ _ _ h hstep => h.owned_step hstep) hrun (numbered_init henv), and_iff_right howned]
  refine ⟨fun hall before s₀ hpre hbefore => hall before _ s₀ hpre hbefore rfl, ?_⟩
  intro hall before e s₀ hpre hbefore he
  subst he
  exact hall before s₀ hpre hbefore

/-- Sockets of the server itself on this port. -/
def serverOn (port : Nat) : List Listening :=
  [⟨.server, .inet, List.replicate 4 0, port⟩, ⟨.server, .inet6, List.replicate 16 0, port⟩]

theorem serverOn_proc {port : Nat} : ∀ l ∈ serverOn port, ∀ n, l.proc ≠ .child n := by simp [serverOn]

/-- A start and a stop on another port, in which the first child is killed late. -/
def otherPort : List HostEvent := [.start none 30001, .spawn true, .spawn true, .started, .terminate [0], .kill]

theorem run_owned_iff_otherPort :
    ∃ s, otherPort.foldlM Host.step (.init (serverOn 9000)) = some s ∧
      (s.Owned ↔ ∀ before s₀, before ++ [.kill] <+: otherPort →
        before.foldlM Host.step (.init (serverOn 9000)) = some s₀ → s₀.Unshared) :=
  ⟨_, rfl, run_owned_iff serverOn_proc rfl⟩

/-- A start and a stop on the port of the server: the children cannot bind. -/
def ownPort : List HostEvent := [.start none 9000, .spawn false, .spawn false, .started, .terminate [], .kill]

/-- The server kills itself. -/
theorem owned_ownPort :
    ∃ s, ownPort.foldlM Host.step (.init (serverOn 9000)) = some s ∧ .server ∈ s.killed ∧ ¬ s.Owned := by
  refine ⟨_, rfl, by decide, ?_⟩
  intro howned
  obtain ⟨n, -, hn⟩ := howned .server (by decide)
  cases hn

end SocketServer.Listen
