import SocketServer.Http.Upload
import SocketServer.Lib.Transition

/-!
# Concurrent uploads to one destination

The server is threaded, and all uploads to one destination use the same `<dest>.part`. Here their file-system
calls interleave: each upload is somewhere in `do_POST` (`Phase`), and `uploadStep` lets one of them make its next
call on the shared file system.

`run_published` : if no upload opens `<dest>.part` while another one has it open or is about to rename it, then from
the first rename on the destination holds the complete content of an upload that has renamed it. Without that, an
upload truncates and shares the inode that the other one publishes (`published_truncated`).
-/

namespace SocketServer.Http

open Text

/-! ### The steps of an upload -/

/-- Where an upload is in `do_POST`. While `<dest>.part` is open, `todo` is what has not reached the file: bytes in
the buffer and bytes still to come. -/
inductive Phase
  | idle
  | writing (inode off : Nat) (todo : Bytes)
  /-- An exception has been raised; the file object is still open. -/
  | failing (inode off : Nat) (todo : Bytes)
  /-- The body has been received and the file object closed. -/
  | closed
  /-- The file object is closed, and `<dest>.part` will be unlinked. -/
  | discarding
  | published
  /-- Answered 200. -/
  | answered
  /-- Answered with an error. -/
  | failed
  deriving DecidableEq, Repr

/-- The calls of an upload. -/
inductive UploadAction
  | openPart
  /-- Some bytes reach the file. -/
  | write (k : Nat)
  /-- Anything raises an exception. -/
  | raise
  | close
  | replace
  | unlink
  | answer
  deriving DecidableEq, Repr

/-- The file system and the uploads `ι`. -/
structure UploadState (ι : Type) where
  fs : FileSystem Str
  phase : ι → Phase

variable {ι : Type} [DecidableEq ι]

def UploadState.set (s : UploadState ι) (u : ι) (fs : FileSystem Str) (phase : Phase) : UploadState ι :=
  ⟨fs, Function.update s.phase u phase⟩

/-- Upload `u`, with content `content u`, makes a call. -/
def uploadStep (dest : Path) (content : ι → Bytes) (s : UploadState ι) : ι × UploadAction → Option (UploadState ι)
  | (u, action) =>
    match s.phase u, action with
    | .idle, .openPart =>
      match s.fs.openTrunc (partPath dest) with
      | some (inode, fs) => some (s.set u fs (.writing inode 0 (content u)))
      | none => some (s.set u s.fs .failed)
    | .writing inode off todo, .write k =>
      some (s.set u (s.fs.pwrite inode off (todo.take k)) (.writing inode (off + (todo.take k).length) (todo.drop k)))
    | .writing _ _ [], .close => some (s.set u s.fs .closed)
    | .writing inode off todo, .raise => some (s.set u s.fs (.failing inode off todo))
    | .failing inode off todo, .write k =>
      some (s.set u (s.fs.pwrite inode off (todo.take k)) (.failing inode (off + (todo.take k).length) (todo.drop k)))
    | .failing _ _ _, .close => some (s.set u s.fs .discarding)
    | .closed, .raise => some (s.set u s.fs .discarding)
    | .closed, .replace =>
      match s.fs.renameFile (partPath dest) dest with
      | some fs => some (s.set u fs .published)
      | none => some (s.set u s.fs .discarding)
    | .discarding, .unlink => some (s.set u (unlinkQuietly (some (partPath dest)) s.fs) .failed)
    | .published, .answer => some (s.set u s.fs .answered)
    | _, _ => none

/-! ### Uploads that have the file for themselves -/

/-- The upload has `<dest>.part` open, or is about to rename it. -/
def Phase.Active : Phase → Prop
  | .writing _ _ _ | .failing _ _ _ | .closed => True
  | _ => False

instance : DecidablePred Phase.Active
  | .writing _ _ _ | .failing _ _ _ | .closed => isTrue trivial
  | .idle | .discarding | .published | .answered | .failed => isFalse id

def Phase.Published (phase : Phase) : Prop := phase = .published ∨ phase = .answered

/-- An upload opens `<dest>.part` only while no other upload is active, and while it is not a hard link to the
destination. -/
def Exclusive (dest : Path) (s : UploadState ι) (step : ι × UploadAction) : Prop :=
  step.2 = .openPart →
    (∀ v, ¬ (s.phase v).Active) ∧
      (s.fs.tree (partPath dest) = none ∨ s.fs.tree (partPath dest) ≠ s.fs.tree dest)

/-- What `<dest>.part` is to an active upload with content `c`. -/
def Owns (dest : Path) (fs : FileSystem Str) (c : Bytes) : Phase → Prop
  | .writing inode off todo =>
    (∀ i, fs.tree (partPath dest) = some (.file i) → i = inode) ∧ fs.tree dest ≠ some (.file inode) ∧
      off = (fs.content inode).length ∧ fs.content inode ++ todo = c
  | .failing inode _ _ =>
    (∀ i, fs.tree (partPath dest) = some (.file i) → i = inode) ∧ fs.tree dest ≠ some (.file inode)
  | .closed =>
    ∀ i, fs.tree (partPath dest) = some (.file i) → fs.tree dest ≠ some (.file i) ∧ fs.content i = c
  | _ => True

/-- The invariant: one upload at most is active, it owns `<dest>.part`, and what has been published is whole. -/
structure Sound (dest : Path) (content : ι → Bytes) (s : UploadState ι) : Prop where
  alone : ∀ u v, (s.phase u).Active → (s.phase v).Active → u = v
  owns : ∀ u, Owns dest s.fs (content u) (s.phase u)
  whole : (∃ u, (s.phase u).Published) → ∃ u, (s.phase u).Published ∧ s.fs.read dest = some (content u)

theorem owns_of_not_active {dest : Path} {fs : FileSystem Str} {c : Bytes} {phase : Phase} (h : ¬ phase.Active) :
    Owns dest fs c phase := by
  cases phase with
  | writing | failing | closed => exact absurd trivial h
  | _ => trivial

theorem Owns.unlink {dest : Path} {fs fs' : FileSystem Str} {c : Bytes} {phase : Phase}
    (hfs : fs.unlink (partPath dest) = some fs') (h : Owns dest fs c phase) : Owns dest fs' c phase := by
  obtain ⟨hpart, htree, hcontent⟩ := FileSystem.unlink_spec hfs
  have hdest := htree dest (partPath_ne dest).symm
  cases phase with
  | writing inode off todo =>
    obtain ⟨-, hne, hoff, hbytes⟩ := h
    refine ⟨fun i hi => ?_, by rwa [hdest], by rwa [hcontent], by rwa [hcontent]⟩
    rw [hpart] at hi
    cases hi
  | failing inode off todo =>
    refine ⟨fun i hi => ?_, by rw [hdest]; exact h.2⟩
    rw [hpart] at hi
    cases hi
  | closed =>
    intro i hi
    rw [hpart] at hi
    cases hi
  | _ => trivial

variable {dest : Path} {content : ι → Bytes} {s s' : UploadState ι} {u : ι}

@[simp] theorem set_phase_self (s : UploadState ι) (u : ι) (fs : FileSystem Str) (phase : Phase) :
    (s.set u fs phase).phase u = phase := Function.update_self _ _ _

theorem set_phase_ne (s : UploadState ι) {u v : ι} (fs : FileSystem Str) (phase : Phase) (h : v ≠ u) :
    (s.set u fs phase).phase v = s.phase v := Function.update_of_ne h _ _

theorem Sound.set (h : Sound dest content s) {fs : FileSystem Str} {phase : Phase}
    (hactive : phase.Active → ∀ v, v ≠ u → ¬ (s.phase v).Active) (hown : Owns dest fs (content u) phase)
    (hothers : ∀ v, v ≠ u → Owns dest fs (content v) (s.phase v))
    (hpublished : phase.Published ↔ (s.phase u).Published) (hread : fs.read dest = s.fs.read dest) :
    Sound dest content (s.set u fs phase) := by
  have hall : ∀ v, ((s.set u fs phase).phase v).Published ↔ (s.phase v).Published := by
    intro v
    by_cases hv : v = u
    · rw [hv, set_phase_self, hpublished]
    · rw [set_phase_ne s fs phase hv]
  refine ⟨fun v w hv hw => ?_, fun v => ?_, ?_⟩
  · by_cases hvu : v = u
    · by_cases hwu : w = u
      · rw [hvu, hwu]
      · rw [hvu, set_phase_self] at hv
        rw [set_phase_ne s fs phase hwu] at hw
        exact absurd hw (hactive hv w hwu)
    · rw [set_phase_ne s fs phase hvu] at hv
      by_cases hwu : w = u
      · rw [hwu, set_phase_self] at hw
        exact absurd hv (hactive hw v hvu)
      · rw [set_phase_ne s fs phase hwu] at hw
        exact h.alone v w hv hw
  · by_cases hvu : v = u
    · rw [hvu, set_phase_self]
      exact hown
    · rw [set_phase_ne s fs phase hvu]
      exact hothers v hvu
  · rintro ⟨v, hv⟩
    obtain ⟨w, hw, hw'⟩ := h.whole ⟨v, (hall v).mp hv⟩
    exact ⟨w, (hall w).mpr hw, hread.trans hw'⟩

omit [DecidableEq ι] in
theorem Sound.others (h : Sound dest content s) (hu : (s.phase u).Active) {v : ι} (hv : v ≠ u) :
    ¬ (s.phase v).Active := fun hactive => hv (h.alone v u hactive hu)

theorem openPart_sound (h : Sound dest content s) (hu : s.phase u = .idle)
    (hexclusive : Exclusive dest s (u, .openPart)) {inode : Nat} {fs : FileSystem Str}
    (hopen : s.fs.openTrunc (partPath dest) = some (inode, fs)) :
    Sound dest content (s.set u fs (.writing inode 0 (content u))) := by
  obtain ⟨hnone, hlink⟩ := hexclusive rfl
  have hopened := FileSystem.openTrunc_spec hopen
  have htree := hopened.tree_ne dest (partPath_ne dest).symm
  have hdest : s.fs.tree dest ≠ some (.file inode) := by
    rcases hopened.origin with hpart | ⟨-, rfl⟩
    · rcases hlink with hlink | hlink
      · rw [hpart] at hlink
        cases hlink
      · exact fun hsame => hlink (hpart.trans hsame.symm)
    · exact fun hnext => absurd (s.fs.allocated _ _ hnext) (lt_irrefl _)
  refine h.set (fun _ v _ => hnone v) ⟨fun i hi => ?_, by rwa [htree], ?_, ?_⟩ (fun v _ => owns_of_not_active (hnone v))
    ?_ ?_
  · rw [hopened.entry] at hi
    cases hi
    rfl
  · rw [hopened.empty, List.length_nil]
  · rw [hopened.empty, List.nil_append]
  · rw [hu]
    simp [Phase.Published]
  · exact FileSystem.read_congr htree fun i hi => hopened.content_ne i fun heq => hdest (heq ▸ hi)

theorem write_sound (h : Sound dest content s) (hu : (s.phase u).Active) (hquiet : ¬ (s.phase u).Published)
    {phase : Phase} {inode off : Nat} {b : Bytes} (hdest : s.fs.tree dest ≠ some (.file inode))
    (hphase : ¬ phase.Published) (hown : Owns dest (s.fs.pwrite inode off b) (content u) phase) :
    Sound dest content (s.set u (s.fs.pwrite inode off b) phase) := by
  refine h.set (fun _ _ hv => h.others hu hv) hown (fun v hv => owns_of_not_active (h.others hu hv))
    (iff_of_false hphase hquiet) ?_
  refine FileSystem.read_congr rfl fun i hi => FileSystem.setContent_ne _ _ ?_
  rintro rfl
  exact hdest hi

theorem quiet_sound (h : Sound dest content s) {phase : Phase} (hactive : phase.Active → (s.phase u).Active)
    (hpublished : phase.Published ↔ (s.phase u).Published) (hown : Owns dest s.fs (content u) phase) :
    Sound dest content (s.set u s.fs phase) :=
  h.set (fun hphase _ hv => h.others (hactive hphase) hv) hown (fun v _ => h.owns v) hpublished rfl

theorem retire_sound (h : Sound dest content s) {phase : Phase} (hactive : ¬ phase.Active)
    (hpublished : phase.Published ↔ (s.phase u).Published) : Sound dest content (s.set u s.fs phase) :=
  quiet_sound h (fun hphase => absurd hphase hactive) hpublished (owns_of_not_active hactive)

theorem replace_sound (h : Sound dest content s) (hu : s.phase u = .closed) {fs : FileSystem Str}
    (hrename : s.fs.renameFile (partPath dest) dest = some fs) :
    Sound dest content (s.set u fs .published) := by
  have hactive : (s.phase u).Active := by rw [hu]; trivial
  obtain ⟨inode, hrenamed⟩ := FileSystem.renameFile_spec hrename
  have hown := h.owns u
  rw [hu] at hown
  have hwhole := (hown inode hrenamed.source).2
  have hnone : ∀ v, ¬ ((s.set u fs .published).phase v).Active := by
    intro v
    by_cases hv : v = u
    · rw [hv, set_phase_self]
      exact id
    · rw [set_phase_ne s fs _ hv]
      exact h.others hactive hv
  refine ⟨fun v w hv _ => absurd hv (hnone v), fun v => owns_of_not_active (hnone v), fun _ => ⟨u, ?_, ?_⟩⟩
  · rw [set_phase_self]
    exact Or.inl rfl
  · rw [← hwhole]
    exact hrenamed.read

/-- The file that `unlink` removes may be the one of another upload. -/
theorem unlink_sound (h : Sound dest content s) (hu : s.phase u = .discarding) :
    Sound dest content (s.set u (unlinkQuietly (some (partPath dest)) s.fs) .failed) := by
  have hpublished : Phase.failed.Published ↔ (s.phase u).Published := by simp [hu, Phase.Published]
  rw [unlinkQuietly]
  rcases hunlink : s.fs.unlink (partPath dest) with _ | fs
  · exact retire_sound h id hpublished
  · obtain ⟨-, htree, hcontent⟩ := FileSystem.unlink_spec hunlink
    refine h.set (fun hactive => absurd hactive id) trivial (fun v _ => (h.owns v).unlink hunlink) hpublished ?_
    refine FileSystem.read_congr (htree dest (partPath_ne dest).symm) fun i _ => ?_
    rw [Option.getD_some, hcontent]

theorem uploadStep_sound {step : ι × UploadAction} (h : Sound dest content s) (hexclusive : Exclusive dest s step)
    (hstep : uploadStep dest content s step = some s') : Sound dest content s' := by
  obtain ⟨u, action⟩ := step
  have hown := h.owns u
  unfold uploadStep at hstep
  dsimp only at hstep
  split at hstep
  · -- `open`
    rename_i hphase
    rcases hopen : s.fs.openTrunc (partPath dest) with _ | ⟨inode, fs⟩
    · rw [hopen] at hstep
      cases hstep
      exact retire_sound h id (by simp [hphase, Phase.Published])
    · rw [hopen] at hstep
      cases hstep
      exact openPart_sound h hphase hexclusive hopen
  · -- a write while the body is received
    rename_i inode off todo k hphase
    cases hstep
    rw [hphase] at hown
    obtain ⟨hpart, hdest, hoff, hbytes⟩ := hown
    have hcontent : (s.fs.pwrite inode off (todo.take k)).content inode = s.fs.content inode ++ todo.take k := by
      rw [FileSystem.pwrite, FileSystem.setContent_self, hoff, FileSystem.writeAt_end]
    refine write_sound h (by rw [hphase]; trivial) (by simp [hphase, Phase.Published]) hdest
      (by simp [Phase.Published]) ⟨hpart, hdest, ?_, ?_⟩
    · rw [hcontent, List.length_append, hoff]
    · rw [hcontent, List.append_assoc, List.take_append_drop, hbytes]
  · -- the body is complete
    rename_i inode off hphase
    cases hstep
    rw [hphase] at hown
    obtain ⟨hpart, hdest, -, hbytes⟩ := hown
    refine quiet_sound h (fun _ => by rw [hphase]; trivial) (by simp [hphase, Phase.Published]) fun i hi => ?_
    obtain rfl := hpart i hi
    exact ⟨hdest, by rwa [List.append_nil] at hbytes⟩
  · rename_i inode off todo hphase
    cases hstep
    rw [hphase] at hown
    exact quiet_sound h (fun _ => by rw [hphase]; trivial) (by simp [hphase, Phase.Published]) ⟨hown.1, hown.2.1⟩
  · -- a write after an exception
    rename_i inode off todo k hphase
    cases hstep
    rw [hphase] at hown
    exact write_sound h (by rw [hphase]; trivial) (by simp [hphase, Phase.Published]) hown.2
      (by simp [Phase.Published]) hown
  · rename_i inode off todo hphase
    cases hstep
    exact retire_sound h id (by simp [hphase, Phase.Published])
  · rename_i hphase
    cases hstep
    exact retire_sound h id (by simp [hphase, Phase.Published])
  · -- `os.replace`
    rename_i hphase
    rcases hrename : s.fs.renameFile (partPath dest) dest with _ | fs
    · rw [hrename] at hstep
      cases hstep
      exact retire_sound h id (by simp [hphase, Phase.Published])
    · rw [hrename] at hstep
      cases hstep
      exact replace_sound h hphase hrename
  · -- `unlink`
    rename_i hphase
    cases hstep
    exact unlink_sound h hphase
  · rename_i hphase
    cases hstep
    exact retire_sound h id (by simp [hphase, Phase.Published])
  · cases hstep

/-! ### Runs -/

def UploadState.init (fs : FileSystem Str) : UploadState ι := ⟨fs, fun _ => .idle⟩

omit [DecidableEq ι] in
theorem sound_init (fs : FileSystem Str) : Sound dest content (UploadState.init fs : UploadState ι) := by
  refine ⟨fun u v hu _ => absurd hu id, fun u => trivial, ?_⟩
  rintro ⟨u, hu⟩
  exact absurd hu (by simp [UploadState.init, Phase.Published])

/-- **Published uploads are whole**: in every run in which `<dest>.part` is opened only while no other upload has it
open or is about to rename it, from the first answer 200 on the destination holds the complete content of an upload
that has renamed its file. -/
theorem run_published (dest : Path) (content : ι → Bytes) (fs : FileSystem Str) {steps : List (ι × UploadAction)}
    {s : UploadState ι}
    (hrun : Run (fun s step s' => Exclusive dest s step ∧ uploadStep dest content s step = some s')
      (UploadState.init fs) steps s)
    {v : ι} (hv : s.phase v = .answered) :
    ∃ u, (s.phase u).Published ∧ s.fs.read dest = some (content u) := by
  have hsound : Sound dest content s :=
    hrun.invariant (Sound dest content) (fun s step s' h hstep => uploadStep_sound h hstep.1 hstep.2) (sound_init fs)
  exact hsound.whole ⟨v, by rw [hv]; exact Or.inr rfl⟩

/-! ### Two uploads -/

def twoContents : Bool → Bytes
  | false => [0x61]
  | true => [0x62]

/-- The first upload is answered before the second one opens `<dest>.part`. -/
def oneByOne : List (Bool × UploadAction) :=
  [(false, .openPart), (false, .write 1), (false, .close), (false, .replace), (false, .answer), (true, .openPart)]

instance (dest : Path) (s : UploadState Bool) (step : Bool × UploadAction) : Decidable (Exclusive dest s step) :=
  inferInstanceAs (Decidable (_ → _ ∧ _))

theorem run_published_oneByOne :
    ∃ s, oneByOne.foldlM (uploadStep [['d']] twoContents) (.init .empty) = some s ∧
      ∃ u, (s.phase u).Published ∧ s.fs.read [['d']] = some (twoContents u) :=
  ⟨_, rfl, run_published [['d']] twoContents .empty (run_guarded (l := oneByOne) rfl) (v := false) rfl⟩

/-- The second upload opens `<dest>.part` between the last write and the rename of the first one. -/
def overlapping : List (Bool × UploadAction) :=
  [(false, .openPart), (false, .write 1), (false, .close), (true, .openPart), (false, .replace), (false, .answer)]

/-- The first upload is answered 200, and the destination is empty. -/
theorem published_truncated :
    ∃ s, Run (fun s step s' => uploadStep [['d']] twoContents s step = some s') (.init .empty) overlapping s ∧
      s.phase false = .answered ∧ ∀ u, s.fs.read [['d']] ≠ some (twoContents u) :=
  ⟨_, run_foldlM (s := UploadState.init .empty) (l := overlapping) rfl, rfl, by decide⟩

end SocketServer.Http
