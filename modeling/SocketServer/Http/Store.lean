import SocketServer.Http.Download
import SocketServer.Http.UploadRun

/-!
# The files as a store

Any number of uploads to any destinations and of downloads of any paths run at once, each making its calls on the
shared file system one by one (`uploadStep`, `downloadStep`). The uploads are path-first ones whose `close` loses
nothing: a file-first one is published by `shutil.move`, and what a `close` loses is renamed all the same. If uploads to
one destination do not overlap, the files behave as a store in which an upload puts its whole content when it renames
`<dest>.part`, and a download gets the content when it opens the file:

* `run_reads` : in every state each file that is not a `.part` file has the content of the last upload that has renamed
  to it, or else its first content;
* `run_download` : a download that has come to its end has sent what the file held when it was opened, up to the length
  it had when `getsize` was called, and so the whole of one version, unless an upload renamed to the path in between;
* `doGet_reaches` : `do_GET` by itself is a run of these calls, as `do_POST` is by `doPost_reaches`;
* `doPost_doGet` : what is posted can be got.
-/

namespace SocketServer.Http

open Text Urls

/-! ### The calls of a download -/

/-- Where a download is in `do_GET`. -/
inductive Reading
  | idle
  /-- `os.path.isfile` has found the file. -/
  | found
  | sized (size : Nat)
  /-- The head has gone out, with this length, and so much of the file. -/
  | sending (size inode : Nat) (sent : Bytes)
  /-- The loop has ended. -/
  | done (size : Nat) (sent : Bytes)
  | refused (code : Nat)
  /-- The client has gone, or the head could not be encoded. -/
  | aborted
  deriving DecidableEq, Repr

inductive ReadAction
  | isfile
  | getsize
  | openFile (permitted : Bool)
  /-- A turn of the loop. -/
  | chunk
  | abort
  deriving DecidableEq, Repr

/-- A download of `path` makes a call. Of a path that is no file any more the size is not looked at: `open` fails. -/
def downloadStep (path : Path) (fs : FileSystem Str) : Reading → ReadAction → Option Reading
  | .idle, .isfile => some (if (fs.read path).isSome then .found else .refused 404)
  | .found, .getsize =>
    match fs.read path with
    | some content => some (.sized content.length)
    | none => some (.refused 500)
  | .sized size, .openFile permitted =>
    match fs.tree path, permitted with
    | some (.file inode), true => some (.sending size inode [])
    | _, _ => some (.refused 500)
  | .sending size inode sent, .chunk =>
    if sent.length < size then
      match ((fs.content inode).drop sent.length).take (min (1 <<< 20) (size - sent.length)) with
      | [] => some (.done size sent)
      | chunk => some (.sending size inode (sent ++ chunk))
    else some (.done size sent)
  | .sending _ _ _, .abort => some .aborted
  | _, _ => none

/-! ### Uploads and downloads together -/

/-- The file system, the uploads `ι` and the downloads `κ`, and the uploads that have renamed their file, the last one
first. -/
structure StoreState (ι κ : Type) where
  fs : FileSystem Str
  phase : ι → Phase
  reading : κ → Reading
  log : List ι

inductive StoreAction (ι κ : Type)
  /-- `os.makedirs` of the parent of the destination. -/
  | makedirs (u : ι) (mayMake : Path → Bool)
  | upload (u : ι) (action : UploadAction)
  | download (d : κ) (action : ReadAction)

variable {ι κ : Type} [DecidableEq ι] [DecidableEq κ] (dest : ι → Path) (content : ι → Bytes) (path : κ → Path)

/-- One call of one of them. -/
def storeStep (s : StoreState ι κ) : StoreAction ι κ → Option (StoreState ι κ)
  | .makedirs u mayMake =>
    if s.phase u = .idle then
      let made := FileSystem.makedirs mayMake (dest u).tail s.fs
      some { s with fs := made.2, phase := Function.update s.phase u (if made.1 then .idle else .failed) }
    else none
  | .upload u action =>
    (uploadStep (dest u) content ⟨s.fs, s.phase⟩ (u, action)).map fun t =>
      { s with
        fs := t.fs
        phase := t.phase
        log := if action = .replace ∧ t.phase u = .published then u :: s.log else s.log }
  | .download d action =>
    (downloadStep (path d) s.fs (s.reading d) action).map fun r =>
      { s with reading := Function.update s.reading d r }

def StoreState.init (fs : FileSystem Str) : StoreState ι κ := ⟨fs, fun _ => .idle, fun _ => .idle, []⟩

/-- An upload opens `<dest>.part` only while no other upload has it open or is about to rename it. -/
def Apart (s : StoreState ι κ) : StoreAction ι κ → Prop
  | .upload u .openPart => ∀ v, partPath (dest v) = partPath (dest u) → ¬ (s.phase v).Active
  | _ => True

/-- The steps of the runs looked at. -/
def storeMoves (s : StoreState ι κ) (a : StoreAction ι κ) (s' : StoreState ι κ) : Prop :=
  Apart dest s a ∧ storeStep dest content path s a = some s'

/-- Not the `.part` path of an upload. -/
def Served (p : Path) : Prop := ∀ u, p ≠ partPath (dest u)

/-- What the uploads of a log leave at a path. -/
def published (fs : FileSystem Str) (log : List ι) (p : Path) : Option Bytes :=
  match log.find? (fun u => dest u = p) with
  | some u => some (content u)
  | none => fs.read p

/-! ### Files that uploads write to -/

/-- The inode that an upload writes to. -/
def Phase.inode : Phase → Option Nat
  | .writing inode _ _ | .failing inode _ _ => some inode
  | _ => none

/-- The `.part` files have no other names, and an upload that writes to a file is the only one to do so, under no other
name than its `.part` path. -/
structure Private (fs : FileSystem Str) (phase : ι → Phase) : Prop where
  links : ∀ u q i, fs.tree (partPath (dest u)) = some (.file i) → fs.tree q = some (.file i) → q = partPath (dest u)
  alone : ∀ u v, (phase u).Active → (phase v).Active → partPath (dest u) = partPath (dest v) → u = v
  allocated : ∀ u i, (phase u).inode = some i → i < fs.next
  only : ∀ u i, (phase u).inode = some i → ∀ q, fs.tree q = some (.file i) → q = partPath (dest u)
  same : ∀ u i, (phase u).inode = some i → ∀ j, fs.tree (partPath (dest u)) = some (.file j) → j = i
  distinct : ∀ u v i, (phase u).inode = some i → (phase v).inode = some i → u = v

/-- A file that no upload will write to any more. -/
structure Settled (fs : FileSystem Str) (phase : ι → Phase) (inode : Nat) : Prop where
  allocated : inode < fs.next
  noPart : ∀ u, fs.tree (partPath (dest u)) ≠ some (.file inode)
  noWriter : ∀ u, (phase u).inode ≠ some inode

/-- What an upload with content `c` has written. -/
def PartHolds (fs : FileSystem Str) (part : Path) (c : Bytes) : Phase → Prop
  | .writing inode off todo => off = (fs.content inode).length ∧ fs.content inode ++ todo = c
  | .closed => ∀ i, fs.tree part = some (.file i) → fs.content i = c
  | _ => True

variable {dest content path} {fs fs' : FileSystem Str} {phase phase' : ι → Phase} {s s' : StoreState ι κ} {u : ι}

theorem active_of_inode {ph : Phase} {i : Nat} (h : ph.inode = some i) : ph.Active := by
  cases ph <;> trivial

omit [DecidableEq ι] in
theorem Private.settled (h : Private dest fs phase) {p : Path} (hp : Served dest p) {i : Nat}
    (hfile : fs.tree p = some (.file i)) : Settled dest fs phase i where
  allocated := fs.allocated p i hfile
  noPart u hpart := hp u (h.links u p i hpart hfile)
  noWriter u hwriter := hp u (h.only u i hwriter p hfile)

section Calm

variable (hnext : fs.next ≤ fs'.next) (hfiles : ∀ q i, fs'.tree q = some (.file i) → fs.tree q = some (.file i))
  (hinode : ∀ v i, (phase' v).inode = some i → (phase v).inode = some i)

include hnext hfiles hinode

omit [DecidableEq ι] in
theorem Private.calm (h : Private dest fs phase) (hactive : ∀ v, (phase' v).Active → (phase v).Active) :
    Private dest fs' phase' where
  links u q i hpart hq := h.links u q i (hfiles _ _ hpart) (hfiles _ _ hq)
  alone u v hu hv := h.alone u v (hactive u hu) (hactive v hv)
  allocated u i hi := lt_of_lt_of_le (h.allocated u i (hinode u i hi)) hnext
  only u i hi q hq := h.only u i (hinode u i hi) q (hfiles q i hq)
  same u i hi j hj := h.same u i (hinode u i hi) j (hfiles _ j hj)
  distinct u v i hu hv := h.distinct u v i (hinode u i hu) (hinode v i hv)

omit [DecidableEq ι] in
theorem Settled.calm {i : Nat} (h : Settled dest fs phase i) : Settled dest fs' phase' i where
  allocated := lt_of_lt_of_le h.allocated hnext
  noPart u hpart := h.noPart u (hfiles _ i hpart)
  noWriter u hwriter := h.noWriter u (hinode u i hwriter)

end Calm

/-! ### `open` -/

section Opened

variable {i : Nat} (hopened : FileSystem.Opened fs fs' (partPath (dest u)) i) (hnext : fs.next ≤ fs'.next)
  (hapart : ∀ v, partPath (dest v) = partPath (dest u) → ¬ (phase v).Active)

include hopened

omit [DecidableEq ι] in
theorem Private.opened_only (h : Private dest fs phase) {q : Path} (hq : fs'.tree q = some (.file i)) :
    q = partPath (dest u) := by
  by_contra hne
  rw [hopened.tree_ne q hne] at hq
  rcases hopened.origin with hpart | ⟨-, rfl⟩
  · exact hne (h.links u q i hpart hq)
  · exact absurd (fs.allocated q _ hq) (lt_irrefl _)

omit [DecidableEq ι] in
theorem Settled.ne_opened {j : Nat} (h : Settled dest fs phase j) : j ≠ i := by
  rintro rfl
  rcases hopened.origin with hpart | ⟨-, rfl⟩
  · exact h.noPart u hpart
  · exact absurd h.allocated (lt_irrefl _)

include hapart

omit [DecidableEq ι] in
theorem Private.opened_noWriter (h : Private dest fs phase) (v : ι) : (phase v).inode ≠ some i := by
  intro hv
  rcases hopened.origin with hpart | ⟨-, rfl⟩
  · exact hapart v (h.only v i hv _ hpart).symm (active_of_inode hv)
  · exact absurd (h.allocated v _ hv) (lt_irrefl _)

include hnext

omit hnext hapart [DecidableEq ι] in
/-- After `open` a file is the one that is open, at its own path, or an old one at another path. -/
theorem opened_file {q : Path} {j : Nat} (hq : fs'.tree q = some (.file j)) :
    q = partPath (dest u) ∧ j = i ∨ q ≠ partPath (dest u) ∧ fs.tree q = some (.file j) := by
  by_cases hpart : q = partPath (dest u)
  · rw [hpart, hopened.entry] at hq
    cases hq
    exact .inl ⟨hpart, rfl⟩
  · exact .inr ⟨hpart, by rwa [← hopened.tree_ne q hpart]⟩

omit hopened hapart hnext in
theorem opened_inode {off : Nat} {todo : Bytes} {v : ι} {j : Nat}
    (hj : (Function.update phase u (.writing i off todo) v).inode = some j) :
    v = u ∧ j = i ∨ v ≠ u ∧ (phase v).inode = some j := by
  by_cases hv : v = u
  · rw [hv, Function.update_self] at hj
    cases hj
    exact .inl ⟨hv, rfl⟩
  · rw [Function.update_of_ne hv] at hj
    exact .inr ⟨hv, hj⟩

omit hnext hapart [DecidableEq ι] in
theorem Private.opened_links (h : Private dest fs phase) {v : ι} {q : Path} {j : Nat}
    (hpart : fs'.tree (partPath (dest v)) = some (.file j)) (hq : fs'.tree q = some (.file j)) :
    q = partPath (dest v) := by
  rcases opened_file hopened hpart with ⟨hv, rfl⟩ | ⟨hv, hpart'⟩
  · rw [hv]
    exact h.opened_only hopened hq
  · rcases opened_file hopened hq with ⟨-, rfl⟩ | ⟨-, hq'⟩
    · exact absurd (h.opened_only hopened hpart) hv
    · exact h.links v q j hpart' hq'

omit hopened hnext in
theorem Private.opened_alone (h : Private dest fs phase) {ph : Phase} {v w : ι}
    (hv : (Function.update phase u ph v).Active) (hw : (Function.update phase u ph w).Active)
    (hsame : partPath (dest v) = partPath (dest w)) : v = w := by
  by_cases hvu : v = u
  · by_cases hwu : w = u
    · rw [hvu, hwu]
    · rw [Function.update_of_ne hwu] at hw
      exact absurd hw (hapart w (hvu ▸ hsame.symm))
  · rw [Function.update_of_ne hvu] at hv
    by_cases hwu : w = u
    · exact absurd hv (hapart v (hwu ▸ hsame))
    · rw [Function.update_of_ne hwu] at hw
      exact h.alone v w hv hw hsame

omit hnext in
theorem Private.opened_distinct (h : Private dest fs phase) {off : Nat} {todo : Bytes} {v w : ι} {j : Nat}
    (hv : (Function.update phase u (.writing i off todo) v).inode = some j)
    (hw : (Function.update phase u (.writing i off todo) w).inode = some j) : v = w := by
  have hnew := h.opened_noWriter hopened hapart
  rcases opened_inode hv with ⟨rfl, rfl⟩ | ⟨-, hv'⟩
  · rcases opened_inode hw with ⟨rfl, -⟩ | ⟨-, hw'⟩
    · rfl
    · exact absurd hw' (hnew w)
  · rcases opened_inode hw with ⟨-, rfl⟩ | ⟨-, hw'⟩
    · exact absurd hv' (hnew v)
    · exact h.distinct v w j hv' hw'

theorem Private.opened (h : Private dest fs phase) {off : Nat} {todo : Bytes} :
    Private dest fs' (Function.update phase u (.writing i off todo)) where
  links v q j hpart hq := h.opened_links hopened hpart hq
  alone v w hv hw hsame := h.opened_alone hapart hv hw hsame
  allocated v j hj := by
    rcases opened_inode hj with ⟨-, rfl⟩ | ⟨-, hj'⟩
    · exact fs'.allocated _ _ hopened.entry
    · exact lt_of_lt_of_le (h.allocated v j hj') hnext
  only v j hj q hq := by
    rcases opened_inode hj with ⟨rfl, rfl⟩ | ⟨-, hj'⟩
    · exact h.opened_only hopened hq
    · rcases opened_file hopened hq with ⟨-, rfl⟩ | ⟨-, hq'⟩
      · exact absurd hj' (h.opened_noWriter hopened hapart v)
      · exact h.only v j hj' q hq'
  same v j hj k hk := by
    rcases opened_file hopened hk with ⟨hpart, rfl⟩ | ⟨hpart, hk'⟩
    · rcases opened_inode hj with ⟨-, rfl⟩ | ⟨-, hj'⟩
      · rfl
      · exact absurd (active_of_inode hj') (hapart v hpart)
    · rcases opened_inode hj with ⟨rfl, -⟩ | ⟨-, hj'⟩
      · exact absurd rfl hpart
      · exact h.same v j hj' k hk'
  distinct v w j hv hw := h.opened_distinct hopened hapart hv hw

omit hapart in
theorem Settled.opened {off : Nat} {todo : Bytes} {j : Nat} (h : Settled dest fs phase j) :
    Settled dest fs' (Function.update phase u (.writing i off todo)) j := by
  have hne := h.ne_opened hopened
  refine ⟨lt_of_lt_of_le h.allocated hnext, fun v hpart => ?_, fun v hwriter => ?_⟩
  · by_cases hv : partPath (dest v) = partPath (dest u)
    · rw [hv, hopened.entry] at hpart
      cases hpart
      exact hne rfl
    · rw [hopened.tree_ne _ hv] at hpart
      exact h.noPart v hpart
  · by_cases hvu : v = u
    · rw [hvu, Function.update_self] at hwriter
      cases hwriter
      exact hne rfl
    · rw [Function.update_of_ne hvu] at hwriter
      exact h.noWriter v hwriter

end Opened

/-! ### `os.replace` -/

section Renamed

variable {i : Nat} (hserved : Served dest (dest u))
  (hrenamed : FileSystem.Renamed fs fs' (partPath (dest u)) (dest u) i) (hgone : fs'.tree (partPath (dest u)) = none)
  (hnext : fs.next ≤ fs'.next)

include hserved hrenamed hgone hnext

omit hserved hnext [DecidableEq ι] in
theorem renamed_entry {q : Path} (hq : q ≠ dest u) {j : Nat} (hfile : fs'.tree q = some (.file j)) :
    q ≠ partPath (dest u) ∧ fs.tree q = some (.file j) := by
  have hpart : q ≠ partPath (dest u) := by
    rintro rfl
    rw [hgone] at hfile
    cases hfile
  exact ⟨hpart, by rwa [← hrenamed.tree_ne q hpart hq]⟩

theorem Private.renamed (h : Private dest fs phase) (hu : phase u = .closed) {ph : Phase} (hph : ¬ ph.Active) :
    Private dest fs' (Function.update phase u ph) := by
  have hactive : (phase u).Active := by rw [hu]; trivial
  have hother : ∀ v, (Function.update phase u ph v).Active → v ≠ u ∧ Function.update phase u ph v = phase v := by
    intro v hv
    have hvu : v ≠ u := by
      rintro rfl
      rw [Function.update_self] at hv
      exact hph hv
    exact ⟨hvu, Function.update_of_ne hvu _ _⟩
  have hpart : ∀ v j, fs'.tree (partPath (dest v)) = some (.file j) →
      partPath (dest v) ≠ partPath (dest u) ∧ fs.tree (partPath (dest v)) = some (.file j) := fun v j =>
    renamed_entry hrenamed hgone (Ne.symm (hserved v))
  refine ⟨fun v q j hv hq => ?_, fun v w hv hw hsame => ?_, fun v j hj => ?_, fun v j hj q hq => ?_,
    fun v j hj k hk => ?_, fun v w j hv hw => ?_⟩
  · obtain ⟨hne, hv⟩ := hpart v j hv
    by_cases hqu : q = dest u
    · rw [hqu, hrenamed.entry] at hq
      cases hq
      exact absurd (h.links u _ i hrenamed.source hv) hne
    · exact h.links v q j hv (renamed_entry hrenamed hgone hqu hq).2
  · obtain ⟨-, hv'⟩ := hother v hv
    obtain ⟨-, hw'⟩ := hother w hw
    exact h.alone v w (hv' ▸ hv) (hw' ▸ hw) hsame
  · obtain ⟨-, hv⟩ := hother v (active_of_inode hj)
    exact lt_of_lt_of_le (h.allocated v j (hv ▸ hj)) hnext
  · obtain ⟨hvu, hv⟩ := hother v (active_of_inode hj)
    rw [hv] at hj
    by_cases hqu : q = dest u
    · rw [hqu, hrenamed.entry] at hq
      cases hq
      have hsame := h.only v i hj _ hrenamed.source
      exact absurd (h.alone v u (active_of_inode hj) hactive hsame.symm) hvu
    · exact h.only v j hj q (renamed_entry hrenamed hgone hqu hq).2
  · obtain ⟨-, hv⟩ := hother v (active_of_inode hj)
    exact h.same v j (hv ▸ hj) k (hpart v k hk).2
  · obtain ⟨-, hv'⟩ := hother v (active_of_inode hv)
    obtain ⟨-, hw'⟩ := hother w (active_of_inode hw)
    exact h.distinct v w j (hv' ▸ hv) (hw' ▸ hw)

theorem Settled.renamed {ph : Phase} (hph : ¬ ph.Active) {j : Nat} (h : Settled dest fs phase j) :
    Settled dest fs' (Function.update phase u ph) j := by
  refine ⟨lt_of_lt_of_le h.allocated hnext, fun v hpart => ?_, fun v hwriter => ?_⟩
  · exact h.noPart v (renamed_entry hrenamed hgone (Ne.symm (hserved v)) hpart).2
  · by_cases hvu : v = u
    · rw [hvu, Function.update_self] at hwriter
      exact hph (active_of_inode hwriter)
    · rw [Function.update_of_ne hvu] at hwriter
      exact h.noWriter v hwriter

end Renamed

/-! ### One call -/

theorem PartHolds.keep {part : Path} {c : Bytes} {ph : Phase} (h : PartHolds fs part c ph)
    (hinode : ∀ i, ph.inode = some i → fs'.content i = fs.content i)
    (hclosed : ph = .closed → ∀ i, fs'.tree part = some (.file i) →
      fs.tree part = some (.file i) ∧ fs'.content i = fs.content i) : PartHolds fs' part c ph := by
  cases ph with
  | writing inode off todo =>
    show off = (fs'.content inode).length ∧ fs'.content inode ++ todo = c
    rw [hinode inode rfl]
    exact h
  | closed =>
    intro i hi
    obtain ⟨hfile, hsame⟩ := hclosed rfl i hi
    rw [hsame]
    exact h i hfile
  | _ => trivial

variable (dest content) in
/-- The invariant. -/
structure StoreSound (fs₀ : FileSystem Str) (s : StoreState ι κ) : Prop where
  isPrivate : Private dest s.fs s.phase
  partHolds : ∀ u, PartHolds s.fs (partPath (dest u)) (content u) (s.phase u)
  reads : ∀ p, Served dest p → s.fs.read p = published dest content fs₀ s.log p
  logged : ∀ u, u ∈ s.log ↔ (s.phase u).Published
  nodup : s.log.Nodup

variable (dest) in
/-- What a call leaves of the files that are settled. -/
def Kept (s s' : StoreState ι κ) : Prop :=
  ∀ i, Settled dest s.fs s.phase i → Settled dest s'.fs s'.phase i ∧ s'.fs.content i = s.fs.content i

variable (dest content) in
/-- The invariant holds behind a call, and the call keeps the files that are settled. -/
structure Sustains (fs₀ : FileSystem Str) (s s' : StoreState ι κ) : Prop where
  sound : StoreSound dest content fs₀ s'
  kept : Kept dest s s'

variable {fs₀ : FileSystem Str} {reading : κ → Reading}

omit [DecidableEq κ] in
/-- A call after which no path leads to another file, except that a `.part` path may lead nowhere. -/
theorem StoreSound.calm (h : StoreSound dest content fs₀ s) {ph : Phase} (hnext : s.fs.next ≤ fs'.next)
    (hfiles : ∀ q i, fs'.tree q = some (.file i) → s.fs.tree q = some (.file i))
    (hserved : ∀ p i, Served dest p → s.fs.tree p = some (.file i) → fs'.tree p = some (.file i))
    (hcontent : ∀ i, (s.phase u).inode ≠ some i → fs'.content i = s.fs.content i)
    (hinode : ∀ i, ph.inode = some i → (s.phase u).inode = some i)
    (hactive : ph.Active → (s.phase u).Active) (hpublished : ph.Published ↔ (s.phase u).Published)
    (hown : PartHolds fs' (partPath (dest u)) (content u) ph) :
    Sustains dest content fs₀ s ⟨fs', Function.update s.phase u ph, reading, s.log⟩ := by
  have hinodes : ∀ v i, (Function.update s.phase u ph v).inode = some i → (s.phase v).inode = some i := by
    intro v i hi
    by_cases hv : v = u
    · rw [hv, Function.update_self] at hi
      rw [hv]
      exact hinode i hi
    · rwa [Function.update_of_ne hv] at hi
  have hactives : ∀ v, (Function.update s.phase u ph v).Active → (s.phase v).Active := by
    intro v hv
    by_cases hvu : v = u
    · rw [hvu, Function.update_self] at hv
      rw [hvu]
      exact hactive hv
    · rwa [Function.update_of_ne hvu] at hv
  refine ⟨⟨h.isPrivate.calm hnext hfiles hinodes hactives, fun v => ?_, fun p hp => ?_, fun v => ?_, h.nodup⟩,
    fun i hi => ⟨hi.calm hnext hfiles hinodes, hcontent i (hi.noWriter u)⟩⟩
  · show PartHolds fs' _ _ (Function.update s.phase u ph v)
    by_cases hv : v = u
    · rw [hv, Function.update_self]
      exact hown
    · rw [Function.update_of_ne hv]
      refine (h.partHolds v).keep (fun i hi => hcontent i fun hu => ?_) fun hclosed i hi => ?_
      · exact hv (h.isPrivate.distinct v u i hi hu)
      · have hfile := hfiles _ i hi
        refine ⟨hfile, hcontent i fun hu => ?_⟩
        have hsame := h.isPrivate.only u i hu _ hfile
        exact hv (h.isPrivate.alone v u (by rw [hclosed]; trivial) (active_of_inode hu) hsame)
  · rw [← h.reads p hp]
    apply FileSystem.read_congr_files
    · exact fun i => ⟨hfiles p i, hserved p i hp⟩
    · exact fun i hi => hcontent i ((h.isPrivate.settled hp hi).noWriter u)
  · show v ∈ s.log ↔ (Function.update s.phase u ph v).Published
    rw [h.logged v]
    by_cases hv : v = u
    · rw [hv, Function.update_self, hpublished]
    · rw [Function.update_of_ne hv]

omit [DecidableEq κ] in
theorem StoreSound.quiet (h : StoreSound dest content fs₀ s) {ph : Phase}
    (hinode : ∀ i, ph.inode = some i → (s.phase u).inode = some i)
    (hactive : ph.Active → (s.phase u).Active) (hpublished : ph.Published ↔ (s.phase u).Published)
    (hown : PartHolds s.fs (partPath (dest u)) (content u) ph) :
    Sustains dest content fs₀ s ⟨s.fs, Function.update s.phase u ph, reading, s.log⟩ :=
  h.calm le_rfl (fun _ _ hi => hi) (fun _ _ _ hi => hi) (fun _ _ => rfl) hinode hactive hpublished hown

omit [DecidableEq κ] in
theorem StoreSound.pwrite (h : StoreSound dest content fs₀ s) {ph : Phase} {i off : Nat} {b : Bytes}
    (hu : (s.phase u).inode = some i) (hquiet : ¬ (s.phase u).Published) (hinode : ph.inode = some i)
    (hphase : ¬ ph.Published) (hown : PartHolds (s.fs.pwrite i off b) (partPath (dest u)) (content u) ph) :
    Sustains dest content fs₀ s ⟨s.fs.pwrite i off b, Function.update s.phase u ph, reading, s.log⟩ := by
  have hnext : s.fs.next ≤ (s.fs.pwrite i off b).next := le_rfl
  refine h.calm hnext (fun _ _ hi => hi) (fun _ _ _ hi => hi) ?_ ?_ (fun _ => active_of_inode hu)
    (iff_of_false hphase hquiet) hown
  · intro j hj
    apply FileSystem.setContent_ne
    rintro rfl
    exact hj hu
  · intro j hj
    rw [hu, ← hinode, hj]

omit [DecidableEq κ] in
theorem StoreSound.opened (h : StoreSound dest content fs₀ s) {i : Nat}
    (hopen : s.fs.openTrunc (partPath (dest u)) = some (i, fs')) (hu : s.phase u = .idle)
    (hapart : ∀ v, partPath (dest v) = partPath (dest u) → ¬ (s.phase v).Active) :
    Sustains dest content fs₀ s ⟨fs', Function.update s.phase u (.writing i 0 (content u)), reading, s.log⟩ := by
  have hopened := FileSystem.openTrunc_spec hopen
  have hnext := FileSystem.openTrunc_next hopen
  refine ⟨⟨h.isPrivate.opened hopened hnext hapart, fun v => ?_, fun p hp => ?_, fun v => ?_, h.nodup⟩,
    fun j hj => ⟨hj.opened hopened hnext, hopened.content_ne j (hj.ne_opened hopened)⟩⟩
  · show PartHolds fs' _ _ (Function.update s.phase u (.writing i 0 (content u)) v)
    by_cases hv : v = u
    · rw [hv, Function.update_self]
      refine ⟨?_, ?_⟩
      · rw [hopened.empty, List.length_nil]
      · rw [hopened.empty, List.nil_append]
    · rw [Function.update_of_ne hv]
      refine (h.partHolds v).keep (fun j hj => hopened.content_ne j ?_) fun hclosed j hj => ?_
      · rintro rfl
        exact h.isPrivate.opened_noWriter hopened hapart v hj
      · have hne : partPath (dest v) ≠ partPath (dest u) := fun hpart =>
          hapart v hpart (by rw [hclosed]; trivial)
        refine ⟨by rwa [← hopened.tree_ne _ hne], hopened.content_ne j ?_⟩
        rintro rfl
        exact hne (h.isPrivate.opened_only hopened hj)
  · rw [← h.reads p hp]
    refine FileSystem.read_congr (hopened.tree_ne p (hp u)) fun j hj => hopened.content_ne j ?_
    exact (h.isPrivate.settled hp hj).ne_opened hopened
  · show v ∈ s.log ↔ (Function.update s.phase u (.writing i 0 (content u)) v).Published
    rw [h.logged v]
    by_cases hv : v = u
    · rw [hv, Function.update_self, hu]
      simp [Phase.Published]
    · rw [Function.update_of_ne hv]

omit [DecidableEq κ] in
theorem StoreSound.renamed (h : StoreSound dest content fs₀ s) (hserved : Served dest (dest u))
    (hrename : s.fs.renameFile (partPath (dest u)) (dest u) = some fs') (hu : s.phase u = .closed) :
    Sustains dest content fs₀ s ⟨fs', Function.update s.phase u .published, reading, u :: s.log⟩ := by
  obtain ⟨i, hrenamed⟩ := FileSystem.renameFile_spec hrename
  have hnext : s.fs.next ≤ fs'.next := (FileSystem.renameFile_next hrename).ge
  have hgone : fs'.tree (partPath (dest u)) = none := by
    apply FileSystem.renameFile_source hrename (partPath_ne _)
    intro hlink
    exact hserved u (h.isPrivate.links u _ i hrenamed.source (hlink ▸ hrenamed.source))
  have hnew : Phase.published.Published := Or.inl rfl
  have hidle : ¬ Phase.published.Active := id
  have hwhole : s.fs.content i = content u := by
    have hown := h.partHolds u
    rw [hu] at hown
    exact hown i hrenamed.source
  refine ⟨⟨h.isPrivate.renamed hserved hrenamed hgone hnext hu hidle, fun v => ?_, fun p hp => ?_, fun v => ?_, ?_⟩,
    fun j hj => ⟨hj.renamed hserved hrenamed hgone hnext hidle, by rw [hrenamed.content]⟩⟩
  · show PartHolds fs' _ _ (Function.update s.phase u .published v)
    by_cases hv : v = u
    · rw [hv, Function.update_self]
      trivial
    · rw [Function.update_of_ne hv]
      refine (h.partHolds v).keep (fun j _ => by rw [hrenamed.content]) fun _ j hj => ?_
      exact ⟨(renamed_entry hrenamed hgone (Ne.symm (hserved v)) hj).2, by rw [hrenamed.content]⟩
  · show fs'.read p = published dest content fs₀ (u :: s.log) p
    unfold published
    rw [List.find?_cons]
    by_cases hpu : dest u = p
    · rw [decide_eq_true hpu, ← hpu, hrenamed.read, hwhole]
    · rw [decide_eq_false hpu]
      refine (FileSystem.read_congr (hrenamed.tree_ne p (hp u) (Ne.symm hpu)) fun j _ => ?_).trans (h.reads p hp)
      rw [hrenamed.content]
  · show v ∈ u :: s.log ↔ (Function.update s.phase u .published v).Published
    rw [List.mem_cons, h.logged v]
    by_cases hv : v = u
    · rw [hv, Function.update_self]
      exact iff_of_true (Or.inl rfl) hnew
    · rw [Function.update_of_ne hv, or_iff_right hv]
  · refine List.nodup_cons.mpr ⟨?_, h.nodup⟩
    rw [h.logged u, hu]
    simp [Phase.Published]

omit [DecidableEq κ] in
theorem StoreSound.unlinked (h : StoreSound dest content fs₀ s) (hu : s.phase u = .discarding) :
    Sustains dest content fs₀ s
      ⟨unlinkQuietly (some (partPath (dest u))) s.fs, Function.update s.phase u .failed, reading, s.log⟩ := by
  have hpublished : Phase.failed.Published ↔ (s.phase u).Published := by simp [hu, Phase.Published]
  have hinode : ∀ i, Phase.failed.inode = some i → (s.phase u).inode = some i := fun i hi => by cases hi
  rw [unlinkQuietly]
  rcases hunlink : s.fs.unlink (partPath (dest u)) with _ | fs
  · exact h.quiet hinode False.elim hpublished trivial
  · obtain ⟨hgone, htree, hcontent⟩ := FileSystem.unlink_spec hunlink
    refine h.calm (FileSystem.unlink_next hunlink).ge (fun q i hi => ?_) (fun p i hp hi => ?_)
      (fun i _ => congrFun hcontent i) hinode False.elim hpublished trivial
    · have hq : q ≠ partPath (dest u) := by
        rintro rfl
        rw [Option.getD_some, hgone] at hi
        cases hi
      rwa [← htree q hq]
    · rwa [Option.getD_some, htree p (hp u)]

variable (dest path) in
/-- No upload goes to the `.part` path of another one, and no download asks for one. -/
structure Layout : Prop where
  dest_served : ∀ u, Served dest (dest u)
  path_served : ∀ d, Served dest (path d)

section Calls

variable (h : StoreSound dest content fs₀ s)

include h

omit [DecidableEq κ] in
/-- A call behind which the upload has no file open any more, and has renamed none. -/
theorem StoreSound.ends {ph : Phase} (hinode : ph.inode = none) (hactive : ¬ph.Active)
    (hpublished : ph.Published ↔ (s.phase u).Published) :
    Sustains dest content fs₀ s ⟨s.fs, Function.update s.phase u ph, reading, s.log⟩ := by
  refine h.quiet (fun i hi => ?_) (fun hon => absurd hon hactive) hpublished ?_
  · rw [hinode] at hi
    cases hi
  · cases ph with
    | closed => exact absurd trivial hactive
    | _ => trivial

omit [DecidableEq κ] in
theorem StoreSound.receives {inode off : Nat} {todo : Bytes} (hphase : s.phase u = .writing inode off todo) (k : Nat) :
    Sustains dest content fs₀ s ⟨s.fs.pwrite inode off (todo.take k),
      Function.update s.phase u (.writing inode (off + (todo.take k).length) (todo.drop k)), reading, s.log⟩ := by
  have hown := h.partHolds u
  rw [hphase] at hown
  obtain ⟨hoff, hbytes⟩ := hown
  have hcontent : (s.fs.pwrite inode off (todo.take k)).content inode = s.fs.content inode ++ todo.take k := by
    rw [FileSystem.pwrite, FileSystem.setContent_self, hoff, FileSystem.writeAt_end]
  refine h.pwrite (by rw [hphase]; rfl) (by simp [hphase, Phase.Published]) rfl (by simp [Phase.Published]) ⟨?_, ?_⟩
  · rw [hcontent, List.length_append, hoff]
  · rw [hcontent, List.append_assoc, List.take_append_drop, hbytes]

omit [DecidableEq κ] in
theorem StoreSound.flushes {inode off : Nat} {todo : Bytes} (hphase : s.phase u = .failing inode off todo) (k : Nat) :
    Sustains dest content fs₀ s ⟨s.fs.pwrite inode off (todo.take k),
      Function.update s.phase u (.failing inode (off + (todo.take k).length) (todo.drop k)), reading, s.log⟩ :=
  h.pwrite (by rw [hphase]; rfl) (by simp [hphase, Phase.Published]) rfl (by simp [Phase.Published]) trivial

omit [DecidableEq κ] in
theorem StoreSound.closes {inode off : Nat} (hphase : s.phase u = .writing inode off []) :
    Sustains dest content fs₀ s ⟨s.fs, Function.update s.phase u .closed, reading, s.log⟩ := by
  have hown := h.partHolds u
  rw [hphase] at hown
  refine h.quiet (fun i hi => by cases hi) (fun _ => by rw [hphase]; trivial) (by simp [hphase, Phase.Published]) ?_
  intro i hi
  obtain rfl := h.isPrivate.same u inode (by rw [hphase]; rfl) i hi
  have hbytes := hown.2
  rwa [List.append_nil] at hbytes

omit [DecidableEq κ] in
theorem StoreSound.raises {inode off : Nat} {todo : Bytes} (hphase : s.phase u = .writing inode off todo) :
    Sustains dest content fs₀ s ⟨s.fs, Function.update s.phase u (.failing inode off todo), reading, s.log⟩ :=
  h.quiet (fun i hi => by rw [hphase]; exact hi) (fun _ => by rw [hphase]; trivial)
    (by simp [hphase, Phase.Published]) trivial

end Calls

omit [DecidableEq κ] in
/-- **One call of an upload**: those that open, write and rename change the files, and the others only what the upload
will do. -/
theorem StoreSound.uploadStep (h : StoreSound dest content fs₀ s) (hserved : Served dest (dest u))
    {action : UploadAction} (hapart : Apart dest s (.upload u action)) {t : UploadState ι}
    (hstep : uploadStep (dest u) content ⟨s.fs, s.phase⟩ (u, action) = some t) :
    Sustains dest content fs₀ s
      ⟨t.fs, t.phase, reading, if action = .replace ∧ t.phase u = .published then u :: s.log else s.log⟩ := by
  have hlog : action ≠ .replace →
      (if action = .replace ∧ t.phase u = .published then u :: s.log else s.log) = s.log :=
    fun hne => if_neg fun hnew => hne hnew.1
  unfold Http.uploadStep at hstep
  dsimp only at hstep
  split at hstep
  · rename_i hphase
    rw [hlog (by simp)]
    rcases hopen : s.fs.openTrunc (partPath (dest u)) with _ | ⟨i, fs⟩
    · rw [hopen] at hstep
      cases hstep
      exact h.ends rfl id (by simp [hphase, Phase.Published])
    · rw [hopen] at hstep
      cases hstep
      exact h.opened hopen hphase hapart
  · rename_i k hphase
    rw [hlog (by simp)]
    cases hstep
    exact h.receives hphase k
  · rename_i hphase
    rw [hlog (by simp)]
    cases hstep
    exact h.closes hphase
  · rename_i hphase
    rw [hlog (by simp)]
    cases hstep
    exact h.raises hphase
  · rename_i k hphase
    rw [hlog (by simp)]
    cases hstep
    exact h.flushes hphase k
  · rename_i hphase
    rw [hlog (by simp)]
    cases hstep
    exact h.ends rfl id (by simp [hphase, Phase.Published])
  · rename_i hphase
    rw [hlog (by simp)]
    cases hstep
    exact h.ends rfl id (by simp [hphase, Phase.Published])
  · rename_i hphase
    rcases hrename : s.fs.renameFile (partPath (dest u)) (dest u) with _ | fs
    · rw [hrename] at hstep
      cases hstep
      rw [if_neg (fun hnew => by simp at hnew)]
      exact h.ends rfl id (by simp [hphase, Phase.Published])
    · rw [hrename] at hstep
      cases hstep
      rw [if_pos ⟨rfl, set_phase_self _ _ _ _⟩]
      exact h.renamed hserved hrename hphase
  · rename_i hphase
    rw [hlog (by simp)]
    cases hstep
    exact h.unlinked hphase
  · rename_i hphase
    rw [hlog (by simp)]
    cases hstep
    exact h.ends rfl id (by simp [hphase, Phase.Published])
  · cases hstep

omit [DecidableEq κ] in
theorem StoreSound.makedirs (h : StoreSound dest content fs₀ s) (hu : s.phase u = .idle) (mayMake : Path → Bool)
    {ph : Phase} (hph : ph = .idle ∨ ph = .failed) :
    Sustains dest content fs₀ s
      ⟨(FileSystem.makedirs mayMake (dest u).tail s.fs).2, Function.update s.phase u ph, reading, s.log⟩ := by
  obtain ⟨hcontent, hnext, htree⟩ := FileSystem.makedirs_spec mayMake (dest u).tail s.fs
  have hinode : ph.inode = none := by rcases hph with rfl | rfl <;> rfl
  have hactive : ¬ ph.Active := by rcases hph with rfl | rfl <;> exact id
  have hpublished : ¬ ph.Published := by rcases hph with rfl | rfl <;> simp [Phase.Published]
  refine h.calm hnext.ge (fun q i => (htree q i).mp) (fun p i _ => (htree p i).mpr) (fun i _ => congrFun hcontent i)
    (fun i hi => ?_) (fun hon => absurd hon hactive) (iff_of_false hpublished (by simp [hu, Phase.Published])) ?_
  · rw [hinode] at hi
    cases hi
  · rcases hph with rfl | rfl <;> trivial

/-- **One call of anyone** keeps the invariant and the files that are settled. -/
theorem storeMoves_sound (hlayout : Layout dest path) (h : StoreSound dest content fs₀ s) {a : StoreAction ι κ}
    (hstep : storeMoves dest content path s a s') : Sustains dest content fs₀ s s' := by
  obtain ⟨hapart, hstep⟩ := hstep
  cases a with
  | makedirs u mayMake =>
    simp only [storeStep] at hstep
    split_ifs at hstep with hidle
    all_goals cases hstep
    · exact h.makedirs hidle mayMake (.inl rfl)
    · exact h.makedirs hidle mayMake (.inr rfl)
  | upload u action =>
    rw [storeStep, Option.map_eq_some_iff] at hstep
    obtain ⟨t, ht, rfl⟩ := hstep
    exact h.uploadStep (hlayout.dest_served u) hapart ht
  | download d action =>
    rw [storeStep, Option.map_eq_some_iff] at hstep
    obtain ⟨r, -, rfl⟩ := hstep
    exact ⟨⟨h.isPrivate, h.partHolds, h.reads, h.logged, h.nodup⟩, fun i hi => ⟨hi, rfl⟩⟩

/-! ### Runs -/

variable (dest) in
/-- No `.part` path is a second name of a file. -/
def NoLinks (fs : FileSystem Str) : Prop :=
  ∀ u q i, fs.tree (partPath (dest u)) = some (.file i) → fs.tree q = some (.file i) → q = partPath (dest u)

omit [DecidableEq ι] [DecidableEq κ] in
theorem storeSound_init (hlinks : NoLinks dest fs₀) :
    StoreSound dest content fs₀ (StoreState.init fs₀ : StoreState ι κ) where
  isPrivate :=
    { links := hlinks
      alone := fun _ _ hu => absurd hu id
      allocated := fun u i hi => by cases hi
      only := fun u i hi => by cases hi
      same := fun u i hi => by cases hi
      distinct := fun u v i hi => by cases hi }
  partHolds u := trivial
  reads p _ := rfl
  logged u := by simp [StoreState.init, Phase.Published]
  nodup := List.nodup_nil

theorem run_storeSound (hlayout : Layout dest path) (hs : StoreSound dest content fs₀ s)
    {steps : List (StoreAction ι κ)} (hrun : Run (storeMoves dest content path) s steps s') :
    StoreSound dest content fs₀ s' :=
  hrun.invariant (StoreSound dest content fs₀) (fun _ _ _ h hstep => (storeMoves_sound hlayout h hstep).1) hs

/-- **What the files hold.** In every run of such uploads in which none opens a `.part` file that another one has open or
is about to rename, a file that is not a `.part` file has the content of the last upload that has renamed to it, or, if
there is none, the content from before; and the uploads in the log are, once each, those that have renamed their
file. -/
theorem run_reads (dest : ι → Path) (content : ι → Bytes) (path : κ → Path) (hlayout : Layout dest path)
    {fs₀ : FileSystem Str} (hlinks : NoLinks dest fs₀) {steps : List (StoreAction ι κ)} {s : StoreState ι κ}
    (hrun : Run (storeMoves dest content path) (.init fs₀) steps s) {p : Path} (hp : Served dest p) :
    s.fs.read p = published dest content fs₀ s.log p ∧ s.log.Nodup ∧ ∀ u, u ∈ s.log ↔ (s.phase u).Published := by
  have h := run_storeSound hlayout (storeSound_init hlinks) hrun
  exact ⟨h.reads p hp, h.nodup, h.logged⟩

/-- A file changes only by a rename to its path. -/
theorem run_unreplaced {steps : List (StoreAction ι κ)} (hrun : Run (storeMoves dest content path) s steps s')
    {p : Path} (hp : ∀ u, .upload u .replace ∈ steps → dest u ≠ p) :
    published dest content fs₀ s'.log p = published dest content fs₀ s.log p := by
  induction hrun with
  | nil => rfl
  | @cons s s₁ s' a l hstep _ ih =>
    rw [ih fun u hu => hp u (List.mem_cons_of_mem a hu)]
    obtain ⟨-, hstep⟩ := hstep
    cases a with
    | makedirs u mayMake =>
      simp only [storeStep] at hstep
      split_ifs at hstep
      all_goals
        cases hstep
        rfl
    | upload u action =>
      rw [storeStep, Option.map_eq_some_iff] at hstep
      obtain ⟨t, -, rfl⟩ := hstep
      show published dest content fs₀ (if _ then _ else _) p = _
      split_ifs with hnew
      · unfold published
        rw [List.find?_cons, decide_eq_false (hp u (hnew.1 ▸ List.mem_cons_self))]
      · rfl
    | download d action =>
      rw [storeStep, Option.map_eq_some_iff] at hstep
      obtain ⟨r, -, rfl⟩ := hstep
      rfl

/-! ### Downloads -/

section Downloads

variable (dest content path) (fs₀) (d : κ)

/-- Download `d` has called `getsize` when its file held `b`. -/
def Sized (l : List (StoreAction ι κ)) (s : StoreState ι κ) (b : Bytes) : Prop :=
  ∃ before between s₀, l = before ++ .download d .getsize :: between ∧
    Run (storeMoves dest content path) (.init fs₀) before s₀ ∧
    Run (storeMoves dest content path) s₀ (.download d .getsize :: between) s ∧ s₀.fs.read (path d) = some b

/-- It has opened its file after that, when it held `b`. -/
def Snapshot (l : List (StoreAction ι κ)) (b₀ b : Bytes) : Prop :=
  ∃ before after s₁, l = before ++ .download d (.openFile true) :: after ∧
    Run (storeMoves dest content path) (.init fs₀) before s₁ ∧ Sized dest content path fs₀ d before s₁ b₀ ∧
    s₁.fs.read (path d) = some b

/-- What holds of a download wherever it is. -/
def ReadSound (l : List (StoreAction ι κ)) (s : StoreState ι κ) : Reading → Prop
  | .sized size => ∃ b₀, Sized dest content path fs₀ d l s b₀ ∧ size = b₀.length
  | .sending size inode sent =>
    ∃ b₀ b, Snapshot dest content path fs₀ d l b₀ b ∧ size = b₀.length ∧ Settled dest s.fs s.phase inode ∧
      s.fs.content inode = b ∧ sent <+: b.take size
  | .done size sent =>
    ∃ b₀ b, Snapshot dest content path fs₀ d l b₀ b ∧ size = b₀.length ∧ sent = b.take size
  | _ => True

end Downloads

variable {d : κ} {l : List (StoreAction ι κ)} {a : StoreAction ι κ} {b₀ b : Bytes}

theorem Sized.snoc (h : Sized dest content path fs₀ d l s b) (hstep : storeMoves dest content path s a s') :
    Sized dest content path fs₀ d (l ++ [a]) s' b := by
  obtain ⟨before, between, s₀, rfl, hbefore, hbetween, hread⟩ := h
  refine ⟨before, between ++ [a], s₀, ?_, hbefore, hbetween.append (.cons hstep (.nil _)), hread⟩
  rw [List.append_assoc, List.cons_append]

theorem Snapshot.snoc (h : Snapshot dest content path fs₀ d l b₀ b) :
    Snapshot dest content path fs₀ d (l ++ [a]) b₀ b := by
  obtain ⟨before, after, s₁, rfl, hbefore, hsized, hread⟩ := h
  refine ⟨before, after ++ [a], s₁, ?_, hbefore, hsized, hread⟩
  rw [List.append_assoc, List.cons_append]

theorem ReadSound.snoc {r : Reading} (h : ReadSound dest content path fs₀ d l s r)
    (hstep : storeMoves dest content path s a s') (hkept : Kept dest s s') :
    ReadSound dest content path fs₀ d (l ++ [a]) s' r := by
  cases r with
  | sized size =>
    obtain ⟨b₀, hsized, hsize⟩ := h
    exact ⟨b₀, hsized.snoc hstep, hsize⟩
  | sending size inode sent =>
    obtain ⟨b₀, b, hsnapshot, hsize, hsettled, hcontent, hsent⟩ := h
    obtain ⟨hsettled', hsame⟩ := hkept inode hsettled
    exact ⟨b₀, b, hsnapshot.snoc, hsize, hsettled', hsame.trans hcontent, hsent⟩
  | done size sent =>
    obtain ⟨b₀, b, hsnapshot, hsize, hsent⟩ := h
    exact ⟨b₀, b, hsnapshot.snoc, hsize, hsent⟩
  | _ => trivial

theorem prefix_chunk {sent b : Bytes} {size k : Nat} (h : sent <+: b.take size) (hk : k ≤ size - sent.length) :
    sent ++ (b.drop sent.length).take k <+: b.take size := by
  obtain ⟨rest, hrest⟩ := h
  have hdrop : (b.take size).drop sent.length = rest := by rw [← hrest, List.drop_left]
  have hchunk : (b.drop sent.length).take k = rest.take k := by
    rw [← hdrop, List.drop_take, List.take_take, Nat.min_eq_left hk]
  rw [← hrest, hchunk]
  exact (List.prefix_append_right_inj sent).mpr (List.take_prefix k rest)

theorem prefix_last {sent b : Bytes} {size : Nat} (h : sent <+: b.take size)
    (hlast : size ≤ sent.length ∨ b.length ≤ sent.length) : sent = b.take size := by
  apply h.eq_of_length_le
  rw [List.length_take]
  rcases hlast with hlast | hlast
  · exact (Nat.min_le_left _ _).trans hlast
  · exact (Nat.min_le_right _ _).trans hlast

theorem downloadStep_sound (hs : StoreSound dest content fs₀ s) (hp : Served dest (path d))
    (hbefore : Run (storeMoves dest content path) (.init fs₀) l s)
    (h : ReadSound dest content path fs₀ d l s (s.reading d)) {action : ReadAction} {r : Reading}
    (hcall : downloadStep (path d) s.fs (s.reading d) action = some r)
    (hstep : storeMoves dest content path s (.download d action) { s with reading := Function.update s.reading d r }) :
    ReadSound dest content path fs₀ d (l ++ [.download d action])
      { s with reading := Function.update s.reading d r } r := by
  unfold downloadStep at hcall
  split at hcall
  · -- `isfile`
    cases hcall
    split_ifs <;> trivial
  · -- `getsize`
    rcases hread : s.fs.read (path d) with _ | b
    · rw [hread] at hcall
      cases hcall
      trivial
    · rw [hread] at hcall
      cases hcall
      exact ⟨b, ⟨l, [], s, rfl, hbefore, .cons hstep (.nil _), hread⟩, rfl⟩
  · -- `open`
    rename_i size permitted hreading
    rw [hreading] at h
    obtain ⟨b₀, hsized, hsize⟩ := h
    split at hcall
    · rename_i inode hfile
      cases hcall
      refine ⟨b₀, s.fs.content inode, ⟨l, [], s, rfl, hbefore, hsized, FileSystem.read_of_file hfile⟩, hsize,
        hs.isPrivate.settled hp hfile, rfl, List.nil_prefix⟩
    · cases hcall
      trivial
  · -- a turn of the loop
    rename_i size inode sent hreading
    rw [hreading] at h
    obtain ⟨b₀, b, hsnapshot, hsize, hsettled, hcontent, hsent⟩ := h
    split_ifs at hcall with hmore
    · split at hcall
      · rename_i hnil
        cases hcall
        refine ⟨b₀, b, hsnapshot.snoc, hsize, prefix_last hsent (.inr ?_)⟩
        rw [hcontent, List.take_eq_nil_iff] at hnil
        have hpos : min (1 <<< 20) (size - sent.length) ≠ 0 := by
          have hchunk : 0 < 1 <<< 20 := by decide
          omega
        exact List.drop_eq_nil_iff.mp (hnil.resolve_left hpos)
      · cases hcall
        refine ⟨b₀, b, hsnapshot.snoc, hsize, hsettled, hcontent, ?_⟩
        rw [hcontent]
        exact prefix_chunk hsent (Nat.min_le_right _ _)
    · cases hcall
      exact ⟨b₀, b, hsnapshot.snoc, hsize, prefix_last hsent (.inl (not_lt.mp hmore))⟩
  · cases hcall
    trivial
  · cases hcall

theorem run_readSound (hlayout : Layout dest path) (hlinks : NoLinks dest fs₀)
    (hrun : Run (storeMoves dest content path) (.init fs₀) l s) (d : κ) :
    ReadSound dest content path fs₀ d l s (s.reading d) := by
  have hinit : ReadSound dest content path fs₀ d [] (.init fs₀) .idle := trivial
  refine hrun.history (fun l s => ReadSound dest content path fs₀ d l s (s.reading d)) hinit ?_
  intro l s a s' hbefore h hstep
  have hs := run_storeSound hlayout (storeSound_init hlinks) hbefore
  have hkept := (storeMoves_sound hlayout hs hstep).2
  by_cases hd : ∃ action, a = .download d action
  · obtain ⟨action, rfl⟩ := hd
    have hcall := hstep.2
    rw [storeStep, Option.map_eq_some_iff] at hcall
    obtain ⟨r, hcall, rfl⟩ := hcall
    show ReadSound dest content path fs₀ d _ _ (Function.update s.reading d r d)
    rw [Function.update_self]
    exact downloadStep_sound hs (hlayout.path_served d) hbefore h hcall hstep
  · have hsame : s'.reading d = s.reading d := by
      have hcall := hstep.2
      cases a with
      | makedirs u mayMake =>
        simp only [storeStep] at hcall
        split_ifs at hcall
        all_goals
          cases hcall
          rfl
      | upload u action =>
        rw [storeStep, Option.map_eq_some_iff] at hcall
        obtain ⟨t, -, rfl⟩ := hcall
        rfl
      | download e action =>
        rw [storeStep, Option.map_eq_some_iff] at hcall
        obtain ⟨r, -, rfl⟩ := hcall
        exact Function.update_of_ne (fun hde => hd ⟨action, by rw [hde]⟩) _ _
    rw [hsame]
    exact h.snoc hstep hkept

/-- **What a download sends.** In every such run, a download whose loop has ended has called `getsize` and then opened
its file; it has sent what the file held when it was opened, up to the length it had at `getsize`, which is the one in
its head. So it has sent the whole of what the file held, as the head says, unless an upload has renamed to the path
between the two calls. -/
theorem run_download (dest : ι → Path) (content : ι → Bytes) (path : κ → Path) (hlayout : Layout dest path)
    {fs₀ : FileSystem Str} (hlinks : NoLinks dest fs₀) {steps : List (StoreAction ι κ)} {s : StoreState ι κ}
    (hrun : Run (storeMoves dest content path) (.init fs₀) steps s) {d : κ} {size : Nat} {sent : Bytes}
    (hdone : s.reading d = .done size sent) :
    ∃ before between after s₀ s₁ b₀ b,
      steps = before ++ .download d .getsize :: between ++ .download d (.openFile true) :: after ∧
      Run (storeMoves dest content path) (.init fs₀) before s₀ ∧
      Run (storeMoves dest content path) s₀ (.download d .getsize :: between) s₁ ∧
      s₀.fs.read (path d) = some b₀ ∧ s₁.fs.read (path d) = some b ∧ size = b₀.length ∧ sent = b.take size ∧
      ((∀ u, .upload u .replace ∈ between → dest u ≠ path d) → b = b₀ ∧ sent = b) := by
  have h := run_readSound hlayout hlinks hrun d
  rw [hdone] at h
  obtain ⟨b₀, b, ⟨l, after, s₁, rfl, hl, hsized, hread⟩, hsize, hsent⟩ := h
  obtain ⟨before, between, s₀, rfl, hbefore, hbetween, hread₀⟩ := hsized
  refine ⟨before, between, after, s₀, s₁, b₀, b, rfl, hbefore, hbetween, hread₀, hread, hsize, hsent, fun hnone => ?_⟩
  have hs₀ := run_storeSound hlayout (storeSound_init hlinks) hbefore
  have hs₁ := run_storeSound hlayout (storeSound_init hlinks) hl
  have hsame : published dest content fs₀ s₁.log (path d) = published dest content fs₀ s₀.log (path d) := by
    apply run_unreplaced hbetween
    intro u hu
    rcases List.mem_cons.mp hu with heq | hmem
    · cases heq
    · exact hnone u hmem
  have hserved := hlayout.path_served d
  rw [hs₁.reads _ hserved, hsame, ← hs₀.reads _ hserved, hread₀] at hread
  obtain rfl := Option.some.inj hread
  exact ⟨rfl, by rw [hsent, hsize, List.take_length]⟩

/-! ### `do_GET` and `do_POST` as runs -/

theorem chunks_reach (real : Path) (fs : FileSystem Str) (inode : Nat) (fuel : Nat) (sent : Bytes)
    (hfuel : (fs.content inode).length - sent.length ≤ fuel) :
    ∃ calls : List ReadAction, calls.foldlM (downloadStep real fs) (.sending (fs.content inode).length inode sent) =
      some (.done (fs.content inode).length
        (sent ++ sendLoop (fs.content inode) (fs.content inode).length fuel sent.length)) := by
  induction fuel generalizing sent with
  | zero =>
    refine ⟨[.chunk], ?_⟩
    have hover : ¬ sent.length < (fs.content inode).length := by omega
    rw [List.foldlM_cons, downloadStep, if_neg hover, sendLoop, List.append_nil]
    rfl
  | succ fuel ih =>
    unfold sendLoop
    split_ifs with hmore
    · rcases hchunk : ((fs.content inode).drop sent.length).take
          (min (1 <<< 20) ((fs.content inode).length - sent.length)) with _ | ⟨c, cs⟩
      · refine ⟨[.chunk], ?_⟩
        rw [List.foldlM_cons, downloadStep, if_pos hmore, hchunk, List.append_nil]
        rfl
      · have hlength : (sent ++ c :: cs).length = sent.length + (c :: cs).length := List.length_append
        obtain ⟨calls, hcalls⟩ := ih (sent ++ c :: cs) (by rw [hlength, List.length_cons]; omega)
        refine ⟨.chunk :: calls, ?_⟩
        rw [List.foldlM_cons, downloadStep, if_pos hmore, hchunk]
        show calls.foldlM _ _ = _
        rw [hcalls, hlength, List.append_assoc]
    · refine ⟨[.chunk], ?_⟩
      rw [List.foldlM_cons, downloadStep, if_neg hmore, List.append_nil]
      rfl

/-- **`do_GET` by itself is a run of its calls**: what it sends, a download sends that makes its calls one by one. -/
theorem doGet_reaches (host : GetHost) (fs : FileSystem Str) {p : Str} (hp : p ≠ []) {head body : Bytes}
    (hsent : doGet host fs (filesTarget p) = .sent head body) :
    ∃ (real : Path) (calls : List ReadAction), host.realpath (unquote p) = some real ∧
      calls.foldlM (downloadStep real fs) .idle = some (.done body.length body) := by
  obtain ⟨real, ⟨hreal, hread, -⟩, -, -⟩ := (doGet_eq_sent host fs hp).mp hsent
  obtain ⟨inode, hfile, rfl⟩ := FileSystem.read_eq_some.mp hread
  obtain ⟨calls, hcalls⟩ := chunks_reach real fs inode (fs.content inode).length [] (Nat.sub_le _ _)
  rw [List.nil_append, List.length_nil, sendLoop_eq _ _ 0 (Nat.sub_le _ _), List.drop_zero] at hcalls
  have hfound : downloadStep real fs .idle .isfile = some .found := by
    rw [downloadStep, hread]
    rfl
  have hsized : downloadStep real fs .found .getsize = some (.sized (fs.content inode).length) := by
    rw [downloadStep, hread]
  have hopened : downloadStep real fs (.sized (fs.content inode).length) (.openFile true) =
      some (.sending (fs.content inode).length inode []) := by
    simp only [downloadStep, hfile]
  refine ⟨real, .isfile :: .getsize :: .openFile true :: calls, hreal, ?_⟩
  simp only [List.foldlM_cons, hfound, hsized, hopened, Option.bind_eq_bind, Option.bind_some]
  exact hcalls

theorem doPost_stored (alnum : Char → Bool) (host : Host) {lengthField typeField : Option Str} (rfile : RFile)
    (fs : FileSystem Str) {length : Nat} {boundary name file : Bytes} {fields : List Field}
    (hlength : contentLength lengthField = some (length : Int)) (hpos : 0 < length)
    (hboundary : boundaryFromContentType (typeField.getD []) = some boundary) (hcr : 0x0D ∉ boundary)
    (hfields : refBody boundary (rfile.data.take length) = some fields) (hfirst : PathFirst alnum fields name file)
    {real : Path} {size : Nat} (hok : (doPost alnum host lengthField typeField rfile fs).1 = .ok real size)
    (hkeeps : ¬ CloseLoses host
      (parseMultipartStream alnum rfile length boundary host.fileOps (Upload.init host fs)).2.2) :
    (doPost alnum host lengthField typeField rfile fs).2.read real = some file ∧ size = file.length := by
  rw [doPost_receive alnum host rfile fs hlength hpos hboundary] at hok ⊢
  rcases hparse : parseMultipartStream alnum rfile length boundary host.fileOps (Upload.init host fs) with
    ⟨e | result, br, up⟩
  · exact absurd hok (receive_refused hparse real size)
  rw [hparse] at hkeeps
  rw [receive_accepted hparse] at hok ⊢
  obtain ⟨hname, -, -⟩ := parse_pathFirst rfile length fs hcr hfields hfirst hparse
  by_cases hne : decodeUtf8 name = []
  · rw [hne] at hname
    exact absurd hok (publish_empty hname real size)
  obtain ⟨d, fh, hd, hholds, hpublish⟩ := publish_pathFirst rfile length fs hcr hfields hfirst hparse hne
  rw [hpublish] at hok ⊢
  exact (publishPart_whole_iff hholds file.length).mpr (fun _ _ => hkeeps) real size hok

/-- **What is posted can be got.** After a path-first upload that is answered 200 and whose `close` loses nothing, a
request for a path without escapes that leads to the destination is answered 200 with the bytes of the `file` field,
where the file may be read and its name can stand in a header. -/
theorem doPost_doGet (alnum : Char → Bool) (host : Host) (lengthField typeField : Option Str) (rfile : RFile)
    (fs : FileSystem Str) (length : Nat) (boundary name file : Bytes) (fields : List Field)
    (hlength : contentLength lengthField = some (length : Int)) (hpos : 0 < length)
    (hboundary : boundaryFromContentType (typeField.getD []) = some boundary) (hcr : 0x0D ∉ boundary)
    (hfields : refBody boundary (rfile.data.take length) = some fields) (hfirst : PathFirst alnum fields name file)
    {real : Path} {size : Nat} (hok : (doPost alnum host lengthField typeField rfile fs).1 = .ok real size)
    (hkeeps : ¬ CloseLoses host
      (parseMultipartStream alnum rfile length boundary host.fileOps (Upload.init host fs)).2.2)
    (getHost : GetHost) {p : Str} (hp : p ≠ []) (hplain : Plain p) (hreal : getHost.realpath p = some real)
    (hmay : getHost.mayRead real = true) (hname : HeaderText (baseName real)) :
    Answered (doGet getHost (doPost alnum host lengthField typeField rfile fs).2 (filesTarget p)) file := by
  obtain ⟨hread, -⟩ := doPost_stored alnum host rfile fs hlength hpos hboundary hcr hfields hfirst hok hkeeps
  exact doGet_plain getHost _ hp hplain ⟨hreal, hread, hmay⟩ hname

theorem doPost_doGet_hi :
    Answered (doGet plainGetHost (uploadHi (bufferingHost none)).2 (filesTarget ['/', 'a'])) fileField.value := by
  have hok : (uploadHi (bufferingHost none)).1 = .ok [['a']] 2 := by decide +kernel
  exact doPost_doGet (fun _ => false) (bufferingHost none) (some ['5', '2'])
    (some ['b', 'o', 'u', 'n', 'd', 'a', 'r', 'y', '=', 'B']) ⟨pathFirstBody, [3, 20]⟩ .empty 52 [0x42]
    pathField.value fileField.value [pathField, fileField] (by decide) (by decide) (by decide) (by decide)
    (by decide +kernel) ⟨pathField.block, fileField.block, by decide +kernel, by decide +kernel, by decide +kernel⟩
    hok (fun ⟨_, _, _, hclose, _⟩ => by cases hclose) plainGetHost (by decide)
    (plain_of_notMem (by decide)) (by decide) rfl (by decide)

/-! ### A download beside two uploads -/

instance (dest : Bool → Path) (s : StoreState Bool κ) : ∀ a, Decidable (Apart dest s a)
  | .upload u .openPart =>
    inferInstanceAs (Decidable (∀ v, partPath (dest v) = partPath (dest u) → ¬ (s.phase v).Active))
  | .upload _ (.write _) | .upload _ .raise | .upload _ .close | .upload _ .replace | .upload _ .unlink
  | .upload _ .answer | .makedirs _ _ | .download _ _ => isTrue trivial

/-- Both uploads and the download have this path. -/
def oneDest {α : Type} (_ : α) : Path := [['d']]

/-- The second upload renames its file while the download is under way. -/
def replacedMeanwhile : List (StoreAction Bool Unit) :=
  [.makedirs false (fun _ => true), .upload false .openPart, .upload false (.write 1), .upload false .close,
    .upload false .replace, .download () .isfile, .download () .getsize, .upload true .openPart,
    .upload true (.write 1), .download () (.openFile true), .upload true .close, .upload true .replace,
    .download () .chunk, .download () .chunk]

theorem oneDest_served {α β : Type} (a : β) : Served (oneDest : α → Path) (oneDest a) := fun _ => (partPath_ne _).symm

theorem oneDest_layout : Layout (oneDest : Bool → Path) (oneDest : Unit → Path) := ⟨oneDest_served, oneDest_served⟩

omit [DecidableEq ι] in
theorem noLinks_empty (dest : ι → Path) : NoLinks dest .empty := by
  intro u q i hpart _
  exact absurd (FileSystem.empty.allocated _ _ hpart) (Nat.not_lt_zero i)

theorem run_reads_replaced :
    ∃ s, replacedMeanwhile.foldlM (storeStep oneDest twoContents oneDest) (.init .empty) = some s ∧
      s.fs.read [['d']] = published oneDest twoContents .empty s.log [['d']] :=
  ⟨_, rfl, (run_reads oneDest twoContents oneDest oneDest_layout (noLinks_empty oneDest)
    (run_guarded (l := replacedMeanwhile) rfl) (oneDest_served ())).1⟩

theorem run_download_replaced :
    ∃ s, replacedMeanwhile.foldlM (storeStep oneDest twoContents oneDest) (.init .empty) = some s ∧
      s.fs.read [['d']] = some [0x62] ∧ s.reading () = .done 1 [0x61] ∧ ∃ b : Bytes, 1 = b.length := by
  obtain ⟨-, -, -, -, -, b₀, -, -, -, -, -, -, hsize, -⟩ :=
    run_download oneDest twoContents oneDest oneDest_layout (noLinks_empty oneDest)
      (run_guarded (l := replacedMeanwhile) rfl) (d := ()) rfl
  exact ⟨_, rfl, rfl, rfl, b₀, hsize⟩

end SocketServer.Http
