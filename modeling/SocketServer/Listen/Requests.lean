import Mathlib.Data.List.Forall2
import SocketServer.Listen.Cachedata

/-!
# What the requests of a listener get (`cleandata`, `data_writefile`, `ss.data`)

* `run_answers` : every answer is a run of consecutive chunks of one merge of what the connections have received, and
  from one answer to the next both ends of the run only move forward;
* `run_cleaned` : what was in the cache when it is emptied comes in no later answer, unless it is emptied between the
  two halves of a `+=`, which brings it back;
* `run_disk` : the files and the buffer are the last chunks, from the last removal on.
-/

namespace SocketServer.Listen

/-- What the consumer has taken and not put into the buffer yet. -/
def CachePlace.unbuffered : CachePlace → List Bytes
  | .append chunk => [chunk]
  | _ => []

def CachePlace.isStore : CachePlace → Bool
  | .store _ _ => true
  | _ => false

theorem CachePlace.idle_isStore {place : CachePlace} (h : place.idle = true) : place.isStore = false := by
  cases place with
  | look | get | flush | sleep => rfl
  | append chunk | store chunk sum | write removed => cases h

theorem CachePlace.idle_unbuffered {place : CachePlace} (h : place.idle = true) : place.unbuffered = [] := by
  cases place with
  | look | get | flush | sleep => rfl
  | append chunk | store chunk sum | write removed => cases h

/-- The cache is not emptied between the halves of a `+=`. -/
def Cache.Between {ι ρ : Type} (s : Cache ι ρ) : CacheEvent ι ρ → Prop
  | .clean r => s.cleaning r = .clear → s.place.isStore = false
  | _ => True

/-! ### What every step keeps -/

variable {ι ρ : Type} [DecidableEq ι] [DecidableEq ρ]

/-- The chunks from `seg.1` to `seg.2`. -/
def between (taken : List Bytes) (seg : Nat × Nat) : Bytes := ((taken.take seg.2).drop seg.1).flatten

/-- Both ends are not before those of the other one. -/
def Forward (seg seg' : Nat × Nat) : Prop := seg.1 ≤ seg'.1 ∧ seg.2 ≤ seg'.2

/-- After the chunks `old`, the consumer has stored the chunks `new`, all but the first `cut` of which are in the cache;
the answers from number `m` on are the runs `segs` of `new`. -/
structure Tells (old : List Bytes) (m : Nat) (s : Cache ι ρ) (new : List Bytes) (cut : Nat) (segs : List (Nat × Nat)) :
    Prop where
  merged : IsMerge s.received (old ++ new ++ s.place.inHand ++ s.queue)
  data : s.data = (new.drop cut).flatten
  sum : ∀ chunk sum, s.place = .store chunk sum → sum = s.data ++ chunk
  cut_le : cut ≤ new.length
  start : m ≤ s.answers.length
  answers : List.Forall₂ (fun seg answer => answer = between new seg) segs (s.answers.drop m)
  within : ∀ seg ∈ segs, seg.1 ≤ seg.2 ∧ Forward seg (cut, new.length)
  forward : segs.Pairwise Forward

theorem between_append {taken : List Bytes} {seg : Nat × Nat} (h : seg.2 ≤ taken.length) (more : List Bytes) :
    between (taken ++ more) seg = between taken seg := by
  rw [between, between, List.take_append_of_le_length h]

theorem Forward.trans {a b c : Nat × Nat} (h : Forward a b) (h' : Forward b c) : Forward a c :=
  ⟨Nat.le_trans h.1 h'.1, Nat.le_trans h.2 h'.2⟩

section

variable {old : List Bytes} {m : Nat} {s s' : Cache ι ρ} {new : List Bytes} {cut : Nat} {segs : List (Nat × Nat)}
  (h : Tells old m s new cut segs)

include h

omit [DecidableEq ρ] in
theorem Tells.go (hreceived : s'.received = s.received) (hqueue : s'.queue = s.queue) (hdata : s'.data = s.data)
    (hanswers : s'.answers = s.answers) (hhand : s'.place.inHand = s.place.inHand)
    (hsum : ∀ chunk sum, s'.place = .store chunk sum → sum = s'.data ++ chunk) : Tells old m s' new cut segs where
  merged := by
    rw [hreceived, hqueue, hhand]
    exact h.merged
  data := hdata.trans h.data
  sum := hsum
  cut_le := h.cut_le
  start := by
    rw [hanswers]
    exact h.start
  answers := by
    rw [hanswers]
    exact h.answers
  within := h.within
  forward := h.forward

omit [DecidableEq ρ] in
theorem Tells.receive (c : ι) (chunk : Bytes) : Tells old m (s.receive c chunk) new cut segs := by
  unfold Cache.receive
  split_ifs
  · exact h
  · refine ⟨?_, h.data, h.sum, h.cut_le, h.start, h.answers, h.within, h.forward⟩
    show IsMerge _ (old ++ new ++ s.place.inHand ++ (s.queue ++ [chunk]))
    rw [← List.append_assoc]
    exact h.merged.push c chunk

omit [DecidableEq ρ] in
theorem Tells.stored {chunk sum : Bytes} (hplace : s.place = .store chunk sum) :
    Tells old m { s with place := .look, data := sum } (new ++ [chunk]) cut segs := by
  have hlength : (new ++ [chunk]).length = new.length + 1 := List.length_append
  have hseg : ∀ seg ∈ segs, seg.2 ≤ new.length := fun seg hseg => (h.within seg hseg).2.2
  refine ⟨?_, ?_, fun _ _ hstore => (by cases hstore), ?_, h.start, ?_, fun seg hmem => ?_, h.forward⟩
  · have hmerged := h.merged
    rw [hplace] at hmerged
    show IsMerge s.received (old ++ (new ++ [chunk]) ++ [] ++ s.queue)
    rw [List.append_nil, ← List.append_assoc]
    exact hmerged
  · show sum = ((new ++ [chunk]).drop cut).flatten
    rw [h.sum chunk sum hplace, h.data, List.drop_append_of_le_length h.cut_le, List.flatten_append,
      List.flatten_singleton]
  · rw [hlength]
    exact Nat.le_succ_of_le h.cut_le
  · show List.Forall₂ (fun seg answer => answer = between (new ++ [chunk]) seg) segs (s.answers.drop m)
    refine ((List.forall₂_and_left _ _).mpr ⟨hseg, h.answers⟩).imp ?_
    rintro seg answer ⟨hle, rfl⟩
    exact (between_append hle [chunk]).symm
  · obtain ⟨hle, hcut, hlast⟩ := h.within seg hmem
    refine ⟨hle, hcut, ?_⟩
    rw [hlength]
    exact Nat.le_succ_of_le hlast

omit [DecidableEq ρ] in
theorem Tells.moves {place : CachePlace} {files : List Bytes} {datawrite : Bytes} (hhand : s.place.inHand = [])
    (hhand' : place.inHand = []) (hstore : place.isStore = false) :
    Tells old m { s with place := place, files := files, datawrite := datawrite } new cut segs := by
  refine h.go rfl rfl rfl rfl (hhand'.trans hhand.symm) ?_
  rintro chunk sum rfl
  cases hstore

omit [DecidableEq ρ] in
theorem Tells.consume (hstep : s.consume = some s') :
    ∃ new' cut' segs', Tells old m s' new' cut' segs' := by
  rcases Cache.consume_cases hstep with ⟨place, hidle, hidle', rfl⟩ | ⟨chunk, queue, hplace, hqueue, rfl⟩ |
    ⟨chunk, hplace, rfl⟩ | ⟨chunk, sum, hplace, rfl⟩ | ⟨hplace, rfl⟩ | ⟨hplace, rfl⟩ | ⟨hplace, rfl⟩
  · refine ⟨new, cut, segs, h.moves (CachePlace.idle_inHand hidle) (CachePlace.idle_inHand hidle') ?_⟩
    exact CachePlace.idle_isStore hidle'
  · have hmerged := h.merged
    rw [hplace, hqueue] at hmerged
    refine ⟨new, cut, segs, ?_, h.data, fun _ _ hstore => (by cases hstore), h.cut_le, h.start, h.answers, h.within,
      h.forward⟩
    simpa [CachePlace.inHand] using hmerged
  · refine ⟨new, cut, segs, h.go rfl rfl rfl rfl (by rw [hplace]; rfl) fun chunk' sum hstore => ?_⟩
    cases hstore
    rfl
  · exact ⟨_, _, _, h.stored hplace⟩
  all_goals exact ⟨new, cut, segs, h.moves (by rw [hplace]; rfl) rfl rfl⟩

/-- The cache is emptied: from here on all chunks so far are old. -/
theorem Tells.cleared {r : ρ} (hstore : s.place.isStore = false) :
    Tells (old ++ new) s.answers.length
      { s with data := [], cleaning := Function.update s.cleaning r .remove } [] 0 [] where
  merged := by
    rw [List.append_nil]
    exact h.merged
  data := rfl
  sum chunk sum hplace := by
    dsimp only at hplace
    rw [hplace] at hstore
    cases hstore
  cut_le := Nat.le_refl _
  start := Nat.le_refl _
  answers := by
    rw [List.drop_length]
    exact .nil
  within seg hseg := by cases hseg
  forward := .nil

theorem Tells.clean {r : ρ} (hbetween : s.Between (.clean r : CacheEvent ι ρ)) (hstep : s.clean r = some s') :
    ∃ new' cut' segs', Tells old m s' new' cut' segs' := by
  unfold Cache.clean at hstep
  split at hstep
  · obtain rfl := Option.some.inj hstep
    exact ⟨new, cut, segs, h.go rfl rfl rfl rfl rfl h.sum⟩
  · rename_i hclear
    obtain rfl := Option.some.inj hstep
    refine ⟨new, new.length, segs, h.merged, ?_, fun chunk sum hplace => ?_, Nat.le_refl _, h.start, h.answers,
      fun seg hseg => ?_, h.forward⟩
    · rw [List.drop_length]
      rfl
    · have hstore := hbetween hclear
      dsimp only at hplace
      rw [hplace] at hstore
      cases hstore
    · obtain ⟨hle, -, hlast⟩ := h.within seg hseg
      exact ⟨hle, Nat.le_trans hle hlast, hlast⟩
  · obtain rfl := Option.some.inj hstep
    refine ⟨new, cut, segs, h.go rfl rfl rfl rfl ?_ fun chunk sum hplace => ?_⟩
    · show s.remove.place.inHand = _
      rcases s.remove_place with ⟨removed, hwrite, hremove⟩ | ⟨-, hremove⟩
      · rw [hremove, hwrite]
        rfl
      · rw [hremove]
    · change s.remove.place = _ at hplace
      rcases s.remove_place with ⟨removed, -, hremove⟩ | ⟨-, hremove⟩
      · rw [hremove] at hplace
        cases hplace
      · exact h.sum chunk sum (hremove.symm.trans hplace)
  · cases hstep

omit [DecidableEq ρ] in
theorem Tells.answer :
    Tells old m { s with answers := s.answers ++ [s.data] } new cut (segs ++ [(cut, new.length)]) := by
  refine ⟨h.merged, h.data, h.sum, h.cut_le, ?_, ?_, fun seg hseg => ?_, ?_⟩
  · rw [List.length_append]
    exact Nat.le_trans h.start (Nat.le_add_right _ _)
  · dsimp only
    rw [List.drop_append_of_le_length h.start]
    refine List.rel_append h.answers (.cons ?_ .nil)
    rw [between, List.take_length]
    exact h.data
  · rcases List.mem_append.mp hseg with hmem | hmem
    · exact h.within seg hmem
    · obtain rfl := List.mem_singleton.mp hmem
      exact ⟨h.cut_le, Nat.le_refl _, Nat.le_refl _⟩
  · refine List.pairwise_append.mpr ⟨h.forward, List.pairwise_singleton _ _, fun seg hseg last hlast => ?_⟩
    obtain rfl := List.mem_singleton.mp hlast
    exact (h.within seg hseg).2

theorem step_tells {e : CacheEvent ι ρ} (hbetween : s.Between e) (hstep : s.step e = some s') :
    ∃ new' cut' segs', Tells old m s' new' cut' segs' := by
  cases e with
  | receive c chunk =>
    obtain rfl := Option.some.inj hstep
    exact ⟨new, cut, segs, h.receive c chunk⟩
  | consume => exact h.consume hstep
  | getTimesOut =>
    obtain ⟨place, hidle, hidle', rfl⟩ := Cache.getTimesOut_idle hstep
    refine ⟨new, cut, segs, h.moves (CachePlace.idle_inHand hidle) (CachePlace.idle_inHand hidle') ?_⟩
    exact CachePlace.idle_isStore hidle'
  | clean r => exact h.clean hbetween hstep
  | answer =>
    obtain rfl := Option.some.inj hstep
    exact ⟨new, cut, _, h.answer⟩

end

/-! ### The files -/

/-- The consumer has put the chunks `taken` into the buffer, where those from `i` on still are; the files hold those
before, from `j` on. -/
structure OnDisk (s : Cache ι ρ) (taken : List Bytes) (i j : Nat) : Prop where
  merged : IsMerge s.received (taken ++ s.place.unbuffered ++ s.queue)
  buffer : s.datawrite = (taken.drop i).flatten
  files : s.files.flatten = between taken (j, i)
  removed_le : j ≤ i
  flushed_le : i ≤ taken.length
  /-- A file that is open is the last one, and still empty. -/
  opened : s.place = .write false → ∃ files, s.files = files ++ [[]]
  gone : s.place = .write true → s.files = []

section

variable {s s' : Cache ι ρ} {taken : List Bytes} {i j : Nat} (h : OnDisk s taken i j)

include h

omit [DecidableEq ρ] in
theorem OnDisk.go (hreceived : s'.received = s.received) (hqueue : s'.queue = s.queue)
    (hfiles : s'.files = s.files) (hdatawrite : s'.datawrite = s.datawrite)
    (hhand : s'.place.unbuffered = s.place.unbuffered) (hplace : ∀ removed, s'.place ≠ .write removed) :
    OnDisk s' taken i j where
  merged := by
    rw [hreceived, hqueue, hhand]
    exact h.merged
  buffer := hdatawrite.trans h.buffer
  files := by
    rw [hfiles]
    exact h.files
  removed_le := h.removed_le
  flushed_le := h.flushed_le
  opened hopened := absurd hopened (hplace false)
  gone hgone := absurd hgone (hplace true)

omit [DecidableEq ρ] in
theorem OnDisk.append {chunk : Bytes} (hplace : s.place = .append chunk) :
    OnDisk { s with place := .store chunk (s.data ++ chunk), datawrite := s.datawrite ++ chunk } (taken ++ [chunk]) i
      j := by
  refine ⟨?_, ?_, ?_, h.removed_le, ?_, fun hopened => (by cases hopened), fun hgone => (by cases hgone)⟩
  · have hmerged := h.merged
    rw [hplace] at hmerged
    show IsMerge s.received (taken ++ [chunk] ++ [] ++ s.queue)
    rwa [List.append_nil]
  · show s.datawrite ++ chunk = ((taken ++ [chunk]).drop i).flatten
    rw [h.buffer, List.drop_append_of_le_length h.flushed_le, List.flatten_append, List.flatten_singleton]
  · show s.files.flatten = between (taken ++ [chunk]) (j, i)
    rw [between_append h.flushed_le, h.files]
  · rw [List.length_append]
    exact Nat.le_trans h.flushed_le (Nat.le_add_right _ _)

omit [DecidableEq ρ] in
theorem OnDisk.written (hplace : s.place = .write false) :
    OnDisk { s with place := .sleep, files := s.files.dropLast ++ [s.datawrite], datawrite := [] } taken taken.length
      j := by
  obtain ⟨files, hfiles⟩ := h.opened hplace
  refine ⟨?_, ?_, ?_, Nat.le_trans h.removed_le h.flushed_le, Nat.le_refl _, fun hopened => (by cases hopened),
    fun hgone => (by cases hgone)⟩
  · have hmerged := h.merged
    rw [hplace] at hmerged
    exact hmerged
  · show [] = (taken.drop taken.length).flatten
    rw [List.drop_length]
    rfl
  · show (s.files.dropLast ++ [s.datawrite]).flatten = ((taken.take taken.length).drop j).flatten
    have hbefore := h.files
    rw [hfiles, List.flatten_append, List.flatten_singleton, List.append_nil, between] at hbefore
    dsimp only at hbefore
    rw [hfiles, List.dropLast_concat, List.flatten_append, List.flatten_singleton, hbefore, h.buffer, List.take_length,
      ← List.flatten_append]
    congr 1
    have hlength : j ≤ (taken.take i).length := by
      rw [List.length_take, Nat.min_eq_left h.flushed_le]
      exact h.removed_le
    rw [← List.drop_append_of_le_length hlength, List.take_append_drop]

omit [DecidableEq ρ] in
/-- The file has been removed: what was in the buffer is lost with it. -/
theorem OnDisk.lost (hplace : s.place = .write true) :
    OnDisk { s with place := .sleep, datawrite := [] } taken taken.length taken.length := by
  have hnil : (taken.drop taken.length).flatten = [] := by
    rw [List.drop_length]
    rfl
  refine ⟨?_, hnil.symm, ?_, Nat.le_refl _, Nat.le_refl _, fun hopened => (by cases hopened),
    fun hgone => (by cases hgone)⟩
  · have hmerged := h.merged
    rw [hplace] at hmerged
    exact hmerged
  · show s.files.flatten = ((taken.take taken.length).drop taken.length).flatten
    rw [h.gone hplace, List.take_length, hnil]
    rfl

omit [DecidableEq ρ] in
theorem OnDisk.remove : OnDisk s.remove taken i i := by
  refine ⟨?_, h.buffer, ?_, Nat.le_refl _, h.flushed_le, fun hopened => ?_, fun _ => rfl⟩
  · show IsMerge s.received (taken ++ s.remove.place.unbuffered ++ s.queue)
    have hmerged := h.merged
    rcases s.remove_place with ⟨removed, hwrite, hremove⟩ | ⟨-, hremove⟩
    · rw [hwrite] at hmerged
      rwa [hremove]
    · rwa [hremove]
  · show [] = ((taken.take i).drop i).flatten
    rw [List.drop_eq_nil_of_le (by rw [List.length_take]; exact Nat.min_le_left _ _)]
    rfl
  · rcases s.remove_place with ⟨removed, -, hremove⟩ | ⟨hplace, hremove⟩
    · cases hremove.symm.trans hopened
    · exact absurd (hremove.symm.trans hopened) (hplace false)

omit [DecidableEq ρ] in
theorem OnDisk.idles {place : CachePlace} (hidle : s.place.idle = true) (hidle' : place.idle = true) :
    OnDisk { s with place := place } taken i j := by
  refine h.go rfl rfl rfl rfl ((CachePlace.idle_unbuffered hidle').trans (CachePlace.idle_unbuffered hidle).symm) ?_
  rintro removed rfl
  cases hidle'

omit [DecidableEq ρ] in
theorem OnDisk.consume (hstep : s.consume = some s') : ∃ taken' i' j', OnDisk s' taken' i' j' ∧ j ≤ j' := by
  have hmerged := h.merged
  rcases Cache.consume_cases hstep with ⟨place, hidle, hidle', rfl⟩ | ⟨chunk, queue, hplace, hqueue, rfl⟩ |
    ⟨chunk, hplace, rfl⟩ | ⟨chunk, sum, hplace, rfl⟩ | ⟨hplace, rfl⟩ | ⟨hplace, rfl⟩ | ⟨hplace, rfl⟩
  · exact ⟨taken, i, j, h.idles hidle hidle', Nat.le_refl _⟩
  · rw [hplace, hqueue] at hmerged
    refine ⟨taken, i, j, ⟨?_, h.buffer, h.files, h.removed_le, h.flushed_le, fun hopened => (by cases hopened),
      fun hgone => (by cases hgone)⟩, Nat.le_refl _⟩
    simpa [CachePlace.unbuffered] using hmerged
  · exact ⟨_, i, j, h.append hplace, Nat.le_refl _⟩
  · refine ⟨taken, i, j, h.go rfl rfl rfl rfl (by rw [hplace]; rfl) fun removed hwrite => ?_, Nat.le_refl _⟩
    cases hwrite
  · rw [hplace] at hmerged
    refine ⟨taken, i, j, ⟨hmerged, h.buffer, ?_, h.removed_le, h.flushed_le, fun _ => ⟨s.files, rfl⟩,
      fun hgone => (by cases hgone)⟩, Nat.le_refl _⟩
    show (s.files ++ [[]]).flatten = between taken (j, i)
    rw [List.flatten_append, List.flatten_singleton, List.append_nil, h.files]
  · exact ⟨taken, _, j, h.written hplace, Nat.le_refl _⟩
  · exact ⟨taken, _, _, h.lost hplace, Nat.le_trans h.removed_le h.flushed_le⟩

omit [DecidableEq ρ] in
theorem OnDisk.same (hreceived : s'.received = s.received) (hqueue : s'.queue = s.queue) (hplace : s'.place = s.place)
    (hfiles : s'.files = s.files) (hdatawrite : s'.datawrite = s.datawrite) : OnDisk s' taken i j := by
  refine ⟨?_, hdatawrite.trans h.buffer, ?_, h.removed_le, h.flushed_le, ?_, ?_⟩
  · rw [hreceived, hplace, hqueue]
    exact h.merged
  · rw [hfiles]
    exact h.files
  · rw [hplace, hfiles]
    exact h.opened
  · rw [hplace, hfiles]
    exact h.gone

theorem step_onDisk {e : CacheEvent ι ρ} (hstep : s.step e = some s') :
    ∃ taken' i' j', OnDisk s' taken' i' j' ∧ j ≤ j' := by
  cases e with
  | receive c chunk =>
    obtain rfl := Option.some.inj hstep
    unfold Cache.receive
    split_ifs
    · exact ⟨taken, i, j, h, Nat.le_refl _⟩
    · refine ⟨taken, i, j, ⟨?_, h.buffer, h.files, h.removed_le, h.flushed_le, h.opened, h.gone⟩, Nat.le_refl _⟩
      show IsMerge _ (taken ++ s.place.unbuffered ++ (s.queue ++ [chunk]))
      rw [← List.append_assoc]
      exact h.merged.push c chunk
  | consume => exact h.consume hstep
  | getTimesOut =>
    obtain ⟨place, hidle, hidle', rfl⟩ := Cache.getTimesOut_idle hstep
    exact ⟨taken, i, j, h.idles hidle hidle', Nat.le_refl _⟩
  | clean r =>
    have hstep' : s.clean r = some s' := hstep
    unfold Cache.clean at hstep'
    split at hstep'
    · obtain rfl := Option.some.inj hstep'
      exact ⟨taken, i, j, h.same rfl rfl rfl rfl rfl, Nat.le_refl _⟩
    · obtain rfl := Option.some.inj hstep'
      exact ⟨taken, i, j, h.same rfl rfl rfl rfl rfl, Nat.le_refl _⟩
    · obtain rfl := Option.some.inj hstep'
      exact ⟨taken, i, i, h.remove.same rfl rfl rfl rfl rfl, h.removed_le⟩
    · cases hstep'
  | answer =>
    obtain rfl := Option.some.inj hstep
    exact ⟨taken, i, j, h.same rfl rfl rfl rfl rfl, Nat.le_refl _⟩

end

/-! ### Runs -/

omit [DecidableEq ρ] in
theorem tells_init : Tells [] 0 (.init : Cache ι ρ) [] 0 [] where
  merged := .nil
  data := rfl
  sum _ _ hstore := by cases hstore
  cut_le := Nat.le_refl _
  start := Nat.le_refl _
  answers := .nil
  within _ hseg := by cases hseg
  forward := .nil

/-- The runs in which the cache is never emptied between the halves of a `+=`. -/
def CacheRun : Cache ι ρ → List (CacheEvent ι ρ) → Cache ι ρ → Prop :=
  Run fun s e s' => s.Between e ∧ s.step e = some s'

theorem run_tells {old : List Bytes} {m : Nat} {s s' : Cache ι ρ} {events : List (CacheEvent ι ρ)}
    (hrun : CacheRun s events s') (h : ∃ new cut segs, Tells old m s new cut segs) :
    ∃ new cut segs, Tells old m s' new cut segs := by
  apply hrun.invariant (fun s => ∃ new cut segs, Tells old m s new cut segs) _ h
  rintro s e s' ⟨new, cut, segs, h⟩ ⟨hbetween, hstep⟩
  exact step_tells h hbetween hstep

/-- **What the requests are answered.** In every run in which the cache is never emptied between the halves of a `+=`,
there is one merge of what the connections have received in which every answer is a run of consecutive chunks, and so is
the cache, up to the last chunk stored; from one answer to the next both ends of the run only move forward. So without
a `cleandata` between them the first answer is a prefix of the second. -/
theorem run_answers {events : List (CacheEvent ι ρ)} {s : Cache ι ρ} (hrun : CacheRun .init events s) :
    ∃ taken cut segs, IsMerge s.received (taken ++ s.place.inHand ++ s.queue) ∧ s.data = (taken.drop cut).flatten ∧
      List.Forall₂ (fun seg answer => answer = between taken seg) segs s.answers ∧ segs.Pairwise Forward ∧
      ∀ seg ∈ segs, seg.1 ≤ seg.2 ∧ Forward seg (cut, taken.length) := by
  obtain ⟨taken, cut, segs, h⟩ := run_tells hrun ⟨[], 0, [], tells_init⟩
  exact ⟨taken, cut, segs, h.merged, h.data, h.answers, h.forward, h.within⟩

/-- **The cache is emptied for good.** When `self.data = b""` of a `cleandata` comes at any point of such a run, the
chunks stored before are in no later answer and never again in the cache: these are runs of the chunks stored
afterwards, and none of those received is lost for them. -/
theorem run_cleaned {before after : List (CacheEvent ι ρ)} {s s₁ s' : Cache ι ρ} (hbefore : CacheRun .init before s)
    {r : ρ} (hclear : s.cleaning r = .clear) (hbetween : s.Between (.clean r : CacheEvent ι ρ))
    (hclean : s.step (.clean r) = some s₁) (hafter : CacheRun s₁ after s') :
    ∃ old new cut segs, IsMerge s.received (old ++ s.place.inHand ++ s.queue) ∧
      IsMerge s'.received (old ++ new ++ s'.place.inHand ++ s'.queue) ∧ s'.data = (new.drop cut).flatten ∧
      List.Forall₂ (fun seg answer => answer = between new seg) segs (s'.answers.drop s.answers.length) := by
  obtain ⟨old, cut, segs, h⟩ := run_tells hbefore ⟨[], 0, [], tells_init⟩
  have hs₁ : s₁ = { s with data := [], cleaning := Function.update s.cleaning r .remove } := by
    have hstep : s.clean r = some s₁ := hclean
    rw [Cache.clean, hclear] at hstep
    exact (Option.some.inj hstep).symm
  have hcleared := h.cleared (hbetween hclear) (r := r)
  rw [← hs₁, List.nil_append] at hcleared
  obtain ⟨new, cut', segs', h'⟩ := run_tells hafter ⟨[], 0, [], hcleared⟩
  exact ⟨old, new, cut', segs', h.merged, h'.merged, h'.data, h'.answers⟩

/-- **The files.** In every run whatever, `cleandata` and its removal of files that are open included, the files hold, one
behind the other, consecutive chunks of a merge of what was received, the last of which is followed by the buffer, so
that nothing between two files, or between them and the buffer, is lost or comes twice. -/
theorem run_disk (events : List (CacheEvent ι ρ)) {s : Cache ι ρ} (hrun : events.foldlM Cache.step .init = some s) :
    ∃ taken i j, IsMerge s.received (taken ++ s.place.unbuffered ++ s.queue) ∧ j ≤ i ∧ i ≤ taken.length ∧
      s.files.flatten = between taken (j, i) ∧ s.datawrite = (taken.drop i).flatten ∧
      s.files.flatten ++ s.datawrite = (taken.drop j).flatten := by
  have hinit : ∃ taken i j, OnDisk (.init : Cache ι ρ) taken i j :=
    ⟨[], 0, 0, .nil, rfl, rfl, Nat.le_refl _, Nat.le_refl _, fun hopened => (by cases hopened),
      fun hgone => (by cases hgone)⟩
  obtain ⟨taken, i, j, h⟩ : ∃ taken i j, OnDisk s taken i j := by
    apply (run_foldlM hrun).invariant (fun s => ∃ taken i j, OnDisk s taken i j) _ hinit
    rintro s e s' ⟨taken, i, j, h⟩ hstep
    obtain ⟨taken', i', j', h', -⟩ := step_onDisk h hstep
    exact ⟨taken', i', j', h'⟩
  refine ⟨taken, i, j, h.merged, h.removed_le, h.flushed_le, h.files, h.buffer, ?_⟩
  have hlength : j ≤ (taken.take i).length := by
    rw [List.length_take, Nat.min_eq_left h.flushed_le]
    exact h.removed_le
  rw [h.files, h.buffer, between, ← List.flatten_append, ← List.drop_append_of_le_length hlength,
    List.take_append_drop]

instance (s : Cache Bool Bool) : ∀ e, Decidable (s.Between e)
  | .clean r => inferInstanceAs (Decidable (s.cleaning r = .clear → s.place.isStore = false))
  | .receive _ _ | .consume | .getTimesOut | .answer => isTrue trivial

/-- The first chunk is sent and then removed while the second one is under way. -/
def cleanedUnderWay : List (CacheEvent Bool Bool) :=
  [.receive true [1], .consume, .consume, .consume, .consume, .answer, .clean true, .receive false [2], .consume,
    .consume]

def answeredAfterwards : List (CacheEvent Bool Bool) := [.consume, .consume, .answer, .clean true, .answer]

theorem run_answers_cleanedUnderWay :
    ∃ s, cleanedUnderWay.foldlM Cache.step .init = some s ∧
      ∃ taken segs, List.Forall₂ (fun seg answer => answer = between taken seg) segs s.answers := by
  obtain ⟨taken, cut, segs, -, -, hanswers, -⟩ := run_answers (run_guarded (l := cleanedUnderWay) rfl)
  exact ⟨_, rfl, taken, segs, hanswers⟩

theorem run_cleaned_afterwards :
    ∃ s s', cleanedUnderWay.foldlM Cache.step .init = some s ∧
      (CacheEvent.clean true :: answeredAfterwards).foldlM Cache.step s = some s' ∧ s'.answers = [[1], [2], [2]] ∧
      ∃ new segs, List.Forall₂ (fun seg answer => answer = between new seg) segs (s'.answers.drop 1) := by
  obtain ⟨old, new, cut, segs, -, -, -, hanswers⟩ := run_cleaned (run_guarded (l := cleanedUnderWay) rfl) (r := true) rfl
    (fun _ => rfl) rfl (run_guarded (l := answeredAfterwards) rfl)
  exact ⟨_, _, rfl, rfl, rfl, new, segs, hanswers⟩

/-- The file of the first chunk is removed while it is open. -/
def removedOpen : List (CacheEvent Bool Bool) :=
  [.receive true [1], .consume, .consume, .consume, .consume, .consume, .consume, .clean true, .clean true,
    .clean true, .consume, .receive false [2], .consume, .consume, .consume, .consume]

theorem run_disk_removedOpen :
    ∃ s, removedOpen.foldlM Cache.step .init = some s ∧ s.files = [] ∧ s.datawrite = [2] ∧
      ∃ taken i, s.files.flatten ++ s.datawrite = (List.drop i taken).flatten := by
  obtain ⟨taken, i, j, -, -, -, -, -, hdisk⟩ := run_disk removedOpen rfl
  exact ⟨_, rfl, rfl, rfl, taken, j, hdisk⟩

/-- The cache is emptied while a chunk is stored, and then holds all of it again. -/
example :
    ∃ s : Cache Bool Bool, [.receive true [1], .consume, .consume, .consume, .consume, .clean true, .receive false [2],
      .consume, .consume, .consume, .clean true, .consume].foldlM Cache.step .init = some s ∧ s.data = [1, 2] :=
  ⟨_, rfl, rfl⟩

end SocketServer.Listen
