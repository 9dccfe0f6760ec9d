import SocketServer.Lib.Bytes
import SocketServer.Lib.Merge
import SocketServer.Lib.Transition

/-!
# What a listener caches (`_handle_conn`, `cachedata`, `cleandata`)

Every connection has a thread that puts the chunks it receives on one queue. A consumer takes them off again, appends
each to a buffer and to `self.data`, and writes the buffer to a new file whenever it finds the queue empty. Beside them
requests work on the cache, each in the thread of its client: 172 empties it (`cleandata`), 173 writes it to a file
(`data_writefile`) and 174 sends it. `step` lets one thread make its next step; a step ends with what another thread
can see of it. `self.data += tmp_q_get` reads the attribute and then sets it, and another thread may come in between.

* `Cache.consume_cases` : what a step of the consumer changes;
* `run_consistent` : without `cleandata`, the data and what has still to come is a merge of what the connections
  received, and the files and the buffer hold the data and the chunk that is about to be added to it.

A request that is answered with an error, or fails to write a file, does nothing here.
-/

namespace SocketServer.Listen

/-- Where the consumer is. -/
inductive CachePlace
  /-- At the test `if self.q.qsize()`. -/
  | look
  /-- In `self.q.get(timeout=1)`. -/
  | get
  /-- With this chunk as `tmp_q_get`. -/
  | append (chunk : Bytes)
  /-- The chunk is in the buffer, and `self.data` will be set to `sum`. -/
  | store (chunk sum : Bytes)
  /-- At the test `if datawrite`. -/
  | flush
  /-- With a new file open, which has been removed or not. -/
  | write (removed : Bool)
  /-- In `time.sleep(1)`. -/
  | sleep
  deriving DecidableEq, Repr

/-- Where a request is in `cleandata`. -/
inductive CleanPlace
  /-- At the test `while self.q.qsize()`. -/
  | test
  /-- Before `self.data = b""`. -/
  | clear
  /-- Before `rm`. -/
  | remove
  | done
  deriving DecidableEq, Repr

/-- A listener with connections `ι`, one consumer, and requests `ρ` to empty the cache. -/
structure Cache (ι ρ : Type) where
  /-- What the thread of each connection has received and put on the queue. -/
  received : ι → List Bytes
  queue : List Bytes
  data : Bytes
  place : CachePlace
  datawrite : Bytes
  /-- The contents of the files, in the order in which they were made. -/
  files : List Bytes
  cleaning : ρ → CleanPlace
  /-- What has been sent or saved, in this order. -/
  answers : List Bytes

inductive CacheEvent (ι ρ : Type)
  /-- The thread of a connection puts on the queue what `recv` has returned. -/
  | receive (c : ι) (chunk : Bytes)
  /-- The consumer makes its next step. -/
  | consume
  /-- `self.q.get` raises `Empty`. -/
  | getTimesOut
  /-- `cleandata` of a request makes its next step. -/
  | clean (r : ρ)
  /-- A request reads `self.data` to send or save it. -/
  | answer
  deriving DecidableEq, Repr

namespace Cache

variable {ι ρ : Type}

/-- `cachedata` begins, with an empty directory. -/
def init : Cache ι ρ := ⟨fun _ => [], [], [], .look, [], [], fun _ => .test, []⟩

def consume (s : Cache ι ρ) : Option (Cache ι ρ) :=
  match s.place with
  | .look => some { s with place := if s.queue.length = 0 then .flush else .get }
  | .get =>
    match s.queue with
    | chunk :: queue => some { s with place := .append chunk, queue := queue }
    | [] => none
  | .append chunk => some { s with place := .store chunk (s.data ++ chunk), datawrite := s.datawrite ++ chunk }
  | .store _ sum => some { s with place := .look, data := sum }
  | .flush =>
    if s.datawrite = [] then some { s with place := .sleep }
    else some { s with place := .write false, files := s.files ++ [[]] }
  | .write false => some { s with place := .sleep, files := s.files.dropLast ++ [s.datawrite], datawrite := [] }
  | .write true => some { s with place := .sleep, datawrite := [] }
  | .sleep => some { s with place := .look }

def getTimesOut (s : Cache ι ρ) : Option (Cache ι ρ) :=
  if s.place = .get then some { s with place := .look } else none

/-- Nothing is put when the other side has closed the connection. -/
def receive [DecidableEq ι] (s : Cache ι ρ) (c : ι) (chunk : Bytes) : Cache ι ρ :=
  if chunk = [] then s
  else { s with received := Function.update s.received c (s.received c ++ [chunk]), queue := s.queue ++ [chunk] }

/-- `rm -rf /tmp/socketbin/*`: a file that is open loses its name. -/
def remove (s : Cache ι ρ) : Cache ι ρ :=
  { s with
    files := []
    place :=
      match s.place with
      | .write _ => .write true
      | place => place }

def clean [DecidableEq ρ] (s : Cache ι ρ) (r : ρ) : Option (Cache ι ρ) :=
  match s.cleaning r with
  | .test => some { s with
      cleaning := Function.update s.cleaning r (if s.queue.length = 0 then .clear else .test) }
  | .clear => some { s with data := [], cleaning := Function.update s.cleaning r .remove }
  | .remove => some { s.remove with cleaning := Function.update s.cleaning r .done }
  | .done => none

def step [DecidableEq ι] [DecidableEq ρ] (s : Cache ι ρ) : CacheEvent ι ρ → Option (Cache ι ρ)
  | .receive c chunk => some (s.receive c chunk)
  | .consume => s.consume
  | .getTimesOut => s.getTimesOut
  | .clean r => s.clean r
  | .answer => some { s with answers := s.answers ++ [s.data] }

end Cache

/-- What the consumer has taken and not yet stored. -/
def CachePlace.inHand : CachePlace → List Bytes
  | .append chunk | .store chunk _ => [chunk]
  | _ => []

/-- The part of it that is in the buffer already. -/
def CachePlace.buffered : CachePlace → List Bytes
  | .store chunk _ => [chunk]
  | _ => []

/-- The consumer has nothing in hand, and no file open. -/
def CachePlace.idle : CachePlace → Bool
  | .look | .get | .flush | .sleep => true
  | _ => false

theorem CachePlace.idle_inHand {place : CachePlace} (h : place.idle = true) : place.inHand = [] := by
  cases place with
  | look | get | flush | sleep => rfl
  | append chunk | store chunk sum | write removed => cases h

theorem CachePlace.idle_buffered {place : CachePlace} (h : place.idle = true) : place.buffered = [] := by
  cases place with
  | look | get | flush | sleep => rfl
  | append chunk | store chunk sum | write removed => cases h

/-! ### What every step keeps -/

variable {ι ρ : Type}

theorem Cache.remove_place (s : Cache ι ρ) :
    (∃ removed, s.place = .write removed ∧ s.remove.place = .write true) ∨
      (∀ removed, s.place ≠ .write removed) ∧ s.remove.place = s.place := by
  unfold Cache.remove
  cases s.place with
  | write removed => exact .inl ⟨removed, rfl, rfl⟩
  | look | get | append chunk | store chunk sum | flush | sleep => exact .inr ⟨fun removed h => (by cases h), rfl⟩

theorem Cache.consume_cases {s s' : Cache ι ρ} (hstep : s.consume = some s') :
    (∃ place, s.place.idle = true ∧ place.idle = true ∧ s' = { s with place := place }) ∨
      (∃ chunk queue, s.place = .get ∧ s.queue = chunk :: queue ∧
        s' = { s with place := .append chunk, queue := queue }) ∨
      (∃ chunk, s.place = .append chunk ∧
        s' = { s with place := .store chunk (s.data ++ chunk), datawrite := s.datawrite ++ chunk }) ∨
      (∃ chunk sum, s.place = .store chunk sum ∧ s' = { s with place := .look, data := sum }) ∨
      (s.place = .flush ∧ s' = { s with place := .write false, files := s.files ++ [[]] }) ∨
      (s.place = .write false ∧
        s' = { s with place := .sleep, files := s.files.dropLast ++ [s.datawrite], datawrite := [] }) ∨
      (s.place = .write true ∧ s' = { s with place := .sleep, datawrite := [] }) := by
  unfold Cache.consume at hstep
  split at hstep
  · rename_i hplace
    refine .inl ⟨_, by rw [hplace]; rfl, ?_, (Option.some.inj hstep).symm⟩
    split_ifs <;> rfl
  · rename_i hplace
    split at hstep
    · rename_i chunk queue hqueue
      exact .inr (.inl ⟨chunk, queue, hplace, hqueue, (Option.some.inj hstep).symm⟩)
    · cases hstep
  · rename_i chunk hplace
    exact .inr (.inr (.inl ⟨chunk, hplace, (Option.some.inj hstep).symm⟩))
  · rename_i chunk sum hplace
    exact .inr (.inr (.inr (.inl ⟨chunk, sum, hplace, (Option.some.inj hstep).symm⟩)))
  · rename_i hplace
    split_ifs at hstep
    · exact .inl ⟨.sleep, by rw [hplace]; rfl, rfl, (Option.some.inj hstep).symm⟩
    · exact .inr (.inr (.inr (.inr (.inl ⟨hplace, (Option.some.inj hstep).symm⟩))))
  · rename_i hplace
    exact .inr (.inr (.inr (.inr (.inr (.inl ⟨hplace, (Option.some.inj hstep).symm⟩)))))
  · rename_i hplace
    exact .inr (.inr (.inr (.inr (.inr (.inr ⟨hplace, (Option.some.inj hstep).symm⟩)))))
  · rename_i hplace
    exact .inl ⟨.look, by rw [hplace]; rfl, rfl, (Option.some.inj hstep).symm⟩

theorem Cache.getTimesOut_idle {s s' : Cache ι ρ} (hstep : s.getTimesOut = some s') :
    ∃ place, s.place.idle = true ∧ place.idle = true ∧ s' = { s with place := place } := by
  unfold Cache.getTimesOut at hstep
  split_ifs at hstep with hplace
  exact ⟨.look, by rw [hplace]; rfl, rfl, (Option.some.inj hstep).symm⟩

variable [DecidableEq ι]

/-- The data, followed by what is in the hand of the consumer and in the queue, is a merge of what was received; and the
files, followed by the buffer, are the data and the chunk that is in the buffer already. -/
structure Consistent (s : Cache ι ρ) : Prop where
  merged : ∃ taken, s.data = taken.flatten ∧ IsMerge s.received (taken ++ s.place.inHand ++ s.queue)
  flushed : s.data ++ s.place.buffered.flatten = s.files.flatten ++ s.datawrite
  sum : ∀ chunk sum, s.place = .store chunk sum → sum = s.data ++ chunk
  /-- A file that is open is the last one, still empty, and not removed. -/
  opened : ∀ removed, s.place = .write removed → removed = false ∧ ∃ files, s.files = files ++ [[]]

theorem consistent_init : Consistent (.init : Cache ι ρ) where
  merged := ⟨[], rfl, .nil⟩
  flushed := rfl
  sum := nofun
  opened := nofun

section

variable {s s' : Cache ι ρ} (h : Consistent s)

include h

theorem Consistent.receive (c : ι) (chunk : Bytes) : Consistent (s.receive c chunk) := by
  unfold Cache.receive
  split_ifs
  · exact h
  · obtain ⟨taken, hdata, hmerge⟩ := h.merged
    refine ⟨⟨taken, hdata, ?_⟩, h.flushed, h.sum, h.opened⟩
    show IsMerge _ (taken ++ s.place.inHand ++ (s.queue ++ [chunk]))
    rw [← List.append_assoc]
    exact hmerge.push c chunk

theorem Consistent.go {place : CachePlace} (hidle : s.place.idle = true) (hidle' : place.idle = true) :
    Consistent { s with place := place } where
  merged := by
    have hmerged := h.merged
    rw [CachePlace.idle_inHand hidle] at hmerged
    show ∃ taken, s.data = taken.flatten ∧ IsMerge s.received (taken ++ place.inHand ++ s.queue)
    rwa [CachePlace.idle_inHand hidle']
  flushed := by
    have hflushed := h.flushed
    rw [CachePlace.idle_buffered hidle] at hflushed
    show s.data ++ place.buffered.flatten = s.files.flatten ++ s.datawrite
    rwa [CachePlace.idle_buffered hidle']
  sum := by
    rintro chunk sum rfl
    cases hidle'
  opened := by
    rintro removed rfl
    cases hidle'

theorem Consistent.consume (hstep : s.consume = some s') : Consistent s' := by
  obtain ⟨taken, hdata, hmerge⟩ := h.merged
  have hflushed := h.flushed
  rcases Cache.consume_cases hstep with ⟨place, hidle, hidle', rfl⟩ | ⟨chunk, queue, hplace, hqueue, rfl⟩ |
    ⟨chunk, hplace, rfl⟩ | ⟨chunk, sum, hplace, rfl⟩ | ⟨hplace, rfl⟩ | ⟨hplace, rfl⟩ | ⟨hplace, rfl⟩
  · exact h.go hidle hidle'
  · rw [hplace, hqueue] at hmerge
    rw [hplace] at hflushed
    refine ⟨⟨taken, hdata, ?_⟩, hflushed, nofun, nofun⟩
    simpa [CachePlace.inHand] using hmerge
  · rw [hplace] at hmerge hflushed
    refine ⟨⟨taken, hdata, hmerge⟩, ?_, ?_, nofun⟩
    · show s.data ++ [chunk].flatten = s.files.flatten ++ (s.datawrite ++ chunk)
      rw [List.flatten_singleton, ← List.append_assoc, ← hflushed]
      exact congrArg (· ++ chunk) (List.append_nil _).symm
    · rintro _ _ ⟨⟩
      rfl
  · rw [hplace] at hmerge hflushed
    have hsum := h.sum chunk sum hplace
    refine ⟨⟨taken ++ [chunk], ?_, ?_⟩, ?_, nofun, nofun⟩
    · show sum = (taken ++ [chunk]).flatten
      rw [hsum, hdata, List.flatten_append, List.flatten_singleton]
    · show IsMerge s.received (taken ++ [chunk] ++ [] ++ s.queue)
      rwa [List.append_nil]
    · show sum ++ [] = s.files.flatten ++ s.datawrite
      rw [List.append_nil, hsum, ← hflushed]
      exact congrArg (s.data ++ ·) (List.flatten_singleton (l := chunk)).symm
  · rw [hplace] at hmerge hflushed
    refine ⟨⟨taken, hdata, hmerge⟩, ?_, nofun, ?_⟩
    · show s.data ++ [] = (s.files ++ [[]]).flatten ++ s.datawrite
      rw [List.flatten_append, List.flatten_singleton, List.append_nil (List.flatten s.files)]
      exact hflushed
    · rintro removed ⟨⟩
      exact ⟨rfl, s.files, rfl⟩
  · obtain ⟨-, files, hfiles⟩ := h.opened false hplace
    rw [hplace] at hmerge hflushed
    refine ⟨⟨taken, hdata, hmerge⟩, ?_, nofun, nofun⟩
    rw [hfiles, List.flatten_append, List.flatten_singleton, List.append_nil (List.flatten files)] at hflushed
    show s.data ++ [] = (s.files.dropLast ++ [s.datawrite]).flatten ++ []
    rw [hfiles, List.dropLast_concat, List.flatten_append, List.flatten_singleton, List.append_nil (_ ++ s.datawrite)]
    exact hflushed
  · cases (h.opened true hplace).1

theorem step_consistent [DecidableEq ρ] {e : CacheEvent ι ρ} (hclean : ∀ r, e ≠ .clean r) (hstep : s.step e = some s') :
    Consistent s' := by
  cases e with
  | receive c chunk =>
    obtain rfl := Option.some.inj hstep
    exact h.receive c chunk
  | consume => exact h.consume hstep
  | getTimesOut =>
    obtain ⟨place, hidle, hidle', rfl⟩ := Cache.getTimesOut_idle hstep
    exact h.go hidle hidle'
  | clean r => exact absurd rfl (hclean r)
  | answer =>
    obtain rfl := Option.some.inj hstep
    exact ⟨h.merged, h.flushed, h.sum, h.opened⟩

end

variable [DecidableEq ρ]

/-- **The cache of a listener.** In every state of every run without `cleandata`: `self.data`, followed by the chunk in
the hand of the consumer and those in the queue, is a merge of what the connections received, each chunk once and each
connection in order; and the contents of the files, followed by the buffer, are `self.data`, followed by the chunk that
is in the buffer and that `self.data` is just about to get. -/
theorem run_consistent {events : List (CacheEvent ι ρ)} {s : Cache ι ρ} (hclean : ∀ r, .clean r ∉ events)
    (hrun : events.foldlM Cache.step .init = some s) :
    (∃ taken, s.data = taken.flatten ∧ IsMerge s.received (taken ++ s.place.inHand ++ s.queue)) ∧
      s.data ++ s.place.buffered.flatten = s.files.flatten ++ s.datawrite := by
  have hevents : ∀ e ∈ events, ∀ r, e ≠ .clean r := fun e he r hr => hclean r (hr ▸ he)
  have h : Consistent s := foldlM_invariant Consistent (fun _ _ _ hs he hstep => step_consistent hs he hstep) hrun
    hevents consistent_init
  exact ⟨h.merged, h.flushed⟩

/-- Two connections; the consumer has written the first two chunks to a file and has the third in its hand. -/
def twoConnections : List (CacheEvent Bool Unit) :=
  [.receive true [1], .consume, .consume, .receive false [2], .consume, .consume, .consume, .consume, .consume,
    .consume, .consume, .consume, .consume, .consume, .receive true [3], .consume, .consume]

theorem run_consistent_twoConnections :
    ∃ s, twoConnections.foldlM Cache.step .init = some s ∧ s.place = .append [3] ∧ s.files = [[1, 2]] ∧
      (∃ taken, s.data = taken.flatten ∧ IsMerge s.received (taken ++ s.place.inHand ++ s.queue)) ∧
      s.data ++ s.place.buffered.flatten = s.files.flatten ++ s.datawrite := by
  have hclean : ∀ r, .clean r ∉ twoConnections := by simp [twoConnections]
  exact ⟨_, rfl, rfl, rfl, run_consistent hclean rfl⟩

/-- Between the two halves of `+=` the chunk is in the buffer and not in the data. -/
theorem consistent_between :
    ∃ s : Cache Bool Unit, [.receive true [1], .consume, .consume, .consume].foldlM Cache.step .init = some s ∧
      s.data ≠ s.files.flatten ++ s.datawrite :=
  ⟨_, rfl, by decide⟩

end SocketServer.Listen
