import SocketServer.Http.RoundTrip
import SocketServer.Http.UploadCalls

/-!
# The order of the fields

Where no call fails, both orders have added the file at its destination, so that the calls of the one can be compared
with the calls of the other. `doPost_order_iff` says when the order makes no difference. It does where the destination
is a directory, into which the file is moved; where there was a `<dest>.part`, which only one of the orders uses up;
and where a destination with a second name is replaced by one order and written over by the other.
-/

namespace SocketServer.Http

open Text FileSystem

variable {alnum : Char → Bool} {host : Host} {fs : FileSystem Str} {path content : Bytes}

/-! ### Where no call fails -/

/-- Where the parent directory is there, every call of both orders succeeds. -/
structure Unhindered (host : Host) (fs : FileSystem Str) (dest : Path) : Prop where
  temp : fs.tree host.tempPath = none
  dir : fs.tree dest.tail = some .dir
  entry : fs.tree dest ≠ some .dir
  partEntry : fs.tree (partPath dest) ≠ some .dir
  mayOpen : host.mayOpen (partPath dest) = true
  mayPublish : host.mayPublish dest = true

theorem partPath_tail (dest : Path) : (partPath dest).tail = dest.tail := by
  rcases dest with _ | ⟨name, up⟩ <;> rfl

theorem partPath_ne_nil (dest : Path) : partPath dest ≠ [] := by
  rcases dest with _ | ⟨name, up⟩ <;> exact List.cons_ne_nil _ _

variable {dest : Path} {i : Nat}

section unhindered

variable (h : Unhindered host fs dest) (content : Bytes)

include h

theorem Unhindered.dest_ne : dest ≠ [] := fun hnil => h.entry (hnil ▸ fs.root)

theorem Unhindered.temp_entry :
    (fs.addFile host.tempPath content).tree host.tempPath = some (.file fs.next) :=
  addFile_self (ne_nil_of_absent h.temp) content

theorem renamePart_new (hpart : fs.tree (partPath dest) = none) :
    renamePart host dest content fs = (.ok dest content.length, fs.addFile dest content) := by
  have hopen := openTrunc_of_absent hpart (partPath_tail dest ▸ h.dir)
  have hrename := renameFile_addFile hpart h.entry h.dir content
  rw [renamePart, if_pos h.mayOpen, hopen]
  dsimp only
  rw [if_pos h.mayPublish, show (fs.create (partPath dest)).setContent fs.next content =
    fs.addFile (partPath dest) content from rfl, hrename]

/-- `<dest>.part` is the destination under another name: nothing is renamed, and both are written over. -/
theorem renamePart_linked (hpart : fs.tree (partPath dest) = some (.file i)) (hdest : fs.tree dest = some (.file i)) :
    renamePart host dest content fs = (.ok dest content.length, fs.setContent i content) := by
  rw [renamePart, if_pos h.mayOpen, openTrunc_of_file hpart]
  dsimp only
  rw [if_pos h.mayPublish, setContent_setContent, renameFile, setContent_tree, hpart, hdest]
  dsimp only
  rw [if_pos rfl]

theorem renamePart_used (hpart : fs.tree (partPath dest) = some (.file i)) (hdest : fs.tree dest ≠ some (.file i)) :
    ∃ fs', renamePart host dest content fs = (.ok dest content.length, fs') ∧ fs'.read (partPath dest) = none := by
  set written := fs.setContent i content
  have hmove : written.renameFile (partPath dest) dest = some (written.move (partPath dest) dest) := by
    rw [renameFile, setContent_tree, hpart]
    dsimp only
    rcases hentry : fs.tree dest with _ | _ | j
    · exact if_pos h.dir
    · exact absurd hentry h.entry
    · refine if_neg fun hij => hdest ?_
      rw [hentry, hij]
  refine ⟨written.move (partPath dest) dest, ?_, read_eq_none_of_absent ?_⟩
  · rw [renamePart, if_pos h.mayOpen, openTrunc_of_file hpart]
    dsimp only
    rw [if_pos h.mayPublish, setContent_setContent, hmove]
  · rw [FileSystem.move, setEntry_ne _ (partPath_ne dest), setEntry_self _ (partPath_ne_nil dest)]

/-- `shutil.move` renames within a file system, and copies to another one. -/
theorem moveFile_addFile :
    moveFile host host.tempPath dest (fs.addFile host.tempPath content) =
      (if host.sameDevice dest then some (fs.addFile dest content) else none).or
        (copyFile host.tempPath dest (fs.addFile host.tempPath content)) := by
  have hdest : (fs.addFile host.tempPath content).tree dest ≠ some .dir := by
    by_cases htemp : dest = host.tempPath
    · rw [htemp, addFile_self (ne_nil_of_absent h.temp)]
      exact nofun
    · rw [addFile_ne htemp]
      exact h.entry
  unfold moveFile
  dsimp only
  rw [if_neg hdest, if_neg (fun hboth => hdest hboth.1), renameFile_addFile h.temp h.entry h.dir]

theorem moveTemp_renamed (hdevice : host.sameDevice dest = true) :
    moveTemp host dest content (fs.addFile host.tempPath content) =
      (.ok dest content.length, fs.addFile dest content) := by
  rw [moveTemp, if_pos h.mayPublish, moveFile_addFile h, if_pos hdevice]
  rfl

theorem moveTemp_copied (hdevice : host.sameDevice dest = false) {fs' : FileSystem Str}
    (hcopy : copyFile host.tempPath dest (fs.addFile host.tempPath content) = some fs') :
    moveTemp host dest content (fs.addFile host.tempPath content) = (.ok dest content.length, fs') := by
  rw [moveTemp, if_pos h.mayPublish, moveFile_addFile h, hdevice, hcopy]
  rfl

theorem moveTemp_new (hdevice : host.sameDevice dest = false) (htemp : dest ≠ host.tempPath)
    (hdest : fs.tree dest = none) :
    ∃ fs', moveTemp host dest content (fs.addFile host.tempPath content) = (.ok dest content.length, fs') ∧
      SameFiles (fs.addFile dest content) fs' := by
  have htail : dest.tail ≠ host.tempPath := by
    intro heq
    have hdir := h.dir
    rw [heq, h.temp] at hdir
    cases hdir
  have hnone : (fs.addFile host.tempPath content).tree dest = none := by rw [addFile_ne htemp, hdest]
  have hmade := h.temp_entry content
  have hopen : (fs.addFile host.tempPath content).openTrunc dest =
      some (fs.next + 1, (fs.addFile host.tempPath content).create dest) := by
    apply openTrunc_of_absent hnone
    rw [addFile_ne htail, h.dir]
  obtain ⟨fs', hunlink, hsame⟩ := unlink_addFile_addFile h.temp h.dest_ne htemp content content
  refine ⟨fs', moveTemp_copied h content hdevice ?_, hsame⟩
  rw [copyFile, hmade, hnone, if_neg (Option.some_ne_none _), read_addFile_self (ne_nil_of_absent h.temp), hopen]
  exact hunlink

theorem moveTemp_over (hdevice : host.sameDevice dest = false) (hdest : fs.tree dest = some (.file i)) :
    ∃ fs', moveTemp host dest content (fs.addFile host.tempPath content) = (.ok dest content.length, fs') ∧
      SameFiles (fs.setContent i content) fs' := by
  have htemp : dest ≠ host.tempPath := by
    rintro rfl
    rw [h.temp] at hdest
    cases hdest
  have hinode : i ≠ fs.next := Nat.ne_of_lt (fs.allocated dest i hdest)
  have hfile : (fs.addFile host.tempPath content).tree dest = some (.file i) := by rw [addFile_ne htemp, hdest]
  have hmade := h.temp_entry content
  have hother : some (Entry.file fs.next) ≠ some (Entry.file i) := by simp [hinode.symm]
  have habsent : (fs.setContent i content).tree host.tempPath = none := h.temp
  obtain ⟨fs', hunlink, hsame⟩ := unlink_addFile habsent content
  refine ⟨fs', moveTemp_copied h content hdevice ?_, hsame⟩
  rw [copyFile, hmade, hfile, if_neg hother, read_addFile_self (ne_nil_of_absent h.temp), openTrunc_of_file hfile]
  dsimp only
  rw [setContent_setContent, setContent_addFile hinode]
  exact hunlink

theorem moveTemp_self (hdevice : host.sameDevice dest = false) (htemp : dest = host.tempPath) :
    (moveTemp host dest content (fs.addFile host.tempPath content)).1 =
      writeFailed host (.move host.tempPath dest) := by
  rw [moveTemp, if_pos h.mayPublish, moveFile_addFile h, hdevice, copyFile, htemp, if_pos rfl]
  rfl

/-- What `shutil.move` leaves: the file as a new one, or the destination written over. -/
theorem moveTemp_cases (hself : host.sameDevice dest = true ∨ dest ≠ host.tempPath) :
    ∃ fs', moveTemp host dest content (fs.addFile host.tempPath content) = (.ok dest content.length, fs') ∧
      ((host.sameDevice dest = true ∨ fs.tree dest = none) ∧ SameFiles (fs.addFile dest content) fs' ∨
        host.sameDevice dest = false ∧ ∃ i, fs.tree dest = some (.file i) ∧ SameFiles (fs.setContent i content) fs') := by
  rcases hdevice : host.sameDevice dest
  swap
  · exact ⟨_, moveTemp_renamed h content hdevice, Or.inl ⟨Or.inl rfl, .refl _⟩⟩
  have htemp : dest ≠ host.tempPath := hself.resolve_left (by rw [hdevice]; decide)
  rcases hdest : fs.tree dest with _ | _ | i
  · obtain ⟨fs', hmove, hsame⟩ := moveTemp_new h content hdevice htemp hdest
    exact ⟨fs', hmove, Or.inl ⟨Or.inr rfl, hsame⟩⟩
  · exact absurd hdest h.entry
  · obtain ⟨fs', hmove, hsame⟩ := moveTemp_over h content hdevice hdest
    exact ⟨fs', hmove, Or.inr ⟨rfl, i, rfl, hsame⟩⟩

end unhindered

/-! ### When the order makes no difference -/

/-- The two orders leave the same at the destination. -/
def SameDestination (host : Host) (fs : FileSystem Str) (dest : Path) (content : Bytes) : Prop :=
  (fs.tree (partPath dest) = none ∧ (host.sameDevice dest = true ∨ dest ≠ host.tempPath ∧
    ∀ i q, fs.tree dest = some (.file i) → q ≠ dest → fs.tree q = some (.file i) → fs.content i = content)) ∨
  ∃ i, fs.tree (partPath dest) = some (.file i) ∧ fs.tree dest = some (.file i) ∧
    (host.sameDevice dest = true → fs.content i = content)

section unhindered

variable (h : Unhindered host fs dest) (content : Bytes)

include h

theorem sameFiles_addFile_moveTemp (hself : host.sameDevice dest = true ∨ dest ≠ host.tempPath)
    (hpart : fs.tree (partPath dest) = none) :
    SameFiles (fs.addFile dest content) (moveTemp host dest content (fs.addFile host.tempPath content)).2 ↔
      SameDestination host fs dest content := by
  have hcond : SameDestination host fs dest content ↔ (host.sameDevice dest = true ∨ dest ≠ host.tempPath ∧
      ∀ i q, fs.tree dest = some (.file i) → q ≠ dest → fs.tree q = some (.file i) → fs.content i = content) := by
    rw [SameDestination, hpart]
    simp
  obtain ⟨fs', hmove, ⟨hplain, hsame⟩ | ⟨hdevice, i, hdest, hsame⟩⟩ := moveTemp_cases h content hself
  all_goals rw [hcond, hmove]
  · refine iff_of_true hsame ?_
    rcases hplain with hdevice | hdest
    · exact Or.inl hdevice
    · refine hself.imp_right fun htemp => ⟨htemp, fun i q hi => ?_⟩
      rw [hdest] at hi
      cases hi
  · -- written over: the other names of the destination tell
    have htemp : dest ≠ host.tempPath := hself.resolve_left (by rw [hdevice]; decide)
    have hover : SameFiles (fs.addFile dest content) fs' ↔
        SameFiles (fs.addFile dest content) (fs.setContent i content) :=
      ⟨fun hfiles => hfiles.trans hsame.symm, fun hfiles => hfiles.trans hsame⟩
    rw [hover, sameFiles_addFile_iff hdest, hdevice, hdest]
    simp only [Bool.false_eq_true, false_or, Option.some.injEq, Entry.file.injEq]
    constructor
    · intro hnames
      refine ⟨htemp, ?_⟩
      rintro _ q rfl hq hfile
      exact hnames q hq hfile
    · rintro ⟨-, hnames⟩ q hq hfile
      exact hnames i q rfl hq hfile

theorem sameFiles_setContent_moveTemp (hpart : fs.tree (partPath dest) = some (.file i))
    (hdest : fs.tree dest = some (.file i)) :
    SameFiles (fs.setContent i content) (moveTemp host dest content (fs.addFile host.tempPath content)).2 ↔
      SameDestination host fs dest content := by
  have hcond : SameDestination host fs dest content ↔ (host.sameDevice dest = true → fs.content i = content) := by
    rw [SameDestination, hpart, hdest]
    simp
  rw [hcond]
  rcases hdevice : host.sameDevice dest
  · obtain ⟨fs', hmove, hsame⟩ := moveTemp_over h content hdevice hdest
    rw [hmove]
    exact iff_of_true hsame nofun
  · rw [moveTemp_renamed h content hdevice]
    have hover : SameFiles (fs.setContent i content) (fs.addFile dest content) ↔
        SameFiles (fs.addFile dest content) (fs.setContent i content) := ⟨.symm, .symm⟩
    rw [hover, sameFiles_addFile_iff hdest]
    exact ⟨fun hnames _ => hnames _ (partPath_ne dest) hpart, fun hcontent _ _ _ => hcontent rfl⟩

theorem read_part_moveTemp (hself : host.sameDevice dest = true ∨ dest ≠ host.tempPath)
    (hpart : fs.tree (partPath dest) = some (.file i)) :
    ((moveTemp host dest content (fs.addFile host.tempPath content)).2.read (partPath dest)).isSome = true := by
  obtain ⟨fs', hmove, ⟨-, hsame⟩ | ⟨-, j, -, hsame⟩⟩ := moveTemp_cases h content hself
  all_goals rw [hmove, ← (hsame _).2]
  · rw [read_addFile_ne (partPath_ne dest), read_of_file hpart]
    rfl
  · rw [read_of_file (show (fs.setContent j content).tree (partPath dest) = some (.file i) from hpart)]
    rfl

theorem renamePart_ok : (renamePart host dest content fs).1 = .ok dest content.length := by
  rcases hpart : fs.tree (partPath dest) with _ | _ | i
  · rw [renamePart_new h content hpart]
  · exact absurd hpart h.partEntry
  by_cases hdest : fs.tree dest = some (.file i)
  · rw [renamePart_linked h content hpart hdest]
  · obtain ⟨fs', hrename, -⟩ := renamePart_used h content hpart hdest
    rw [hrename]

/-- Where no call fails, the two leave the same files if and only if they leave the same at the destination. -/
theorem unhindered_iff :
    ((renamePart host dest content fs).1 = (moveTemp host dest content (fs.addFile host.tempPath content)).1 ∧
      SameFiles (renamePart host dest content fs).2
        (moveTemp host dest content (fs.addFile host.tempPath content)).2) ↔
      SameDestination host fs dest content := by
  have hpartOk := renamePart_ok h content
  by_cases hself : host.sameDevice dest = true ∨ dest ≠ host.tempPath
  swap
  · -- the destination is the temporary file, and said to be elsewhere
    rw [not_or, Bool.not_eq_true, not_not] at hself
    obtain ⟨hdevice, htemp⟩ := hself
    rw [hpartOk, moveTemp_self h content hdevice htemp]
    refine iff_of_false (fun hboth => by cases hboth.1) ?_
    rintro (⟨-, hsame | ⟨hne, -⟩⟩ | ⟨i, -, hfile, -⟩)
    · rw [hdevice] at hsame
      cases hsame
    · exact hne htemp
    · rw [htemp, h.temp] at hfile
      cases hfile
  have hok : (moveTemp host dest content (fs.addFile host.tempPath content)).1 = .ok dest content.length := by
    obtain ⟨fs', hmove, -⟩ := moveTemp_cases h content hself
    rw [hmove]
  have hanswers : (renamePart host dest content fs).1 =
      (moveTemp host dest content (fs.addFile host.tempPath content)).1 := hpartOk.trans hok.symm
  rw [and_iff_right hanswers]
  rcases hpart : fs.tree (partPath dest) with _ | _ | i
  · rw [renamePart_new h content hpart, sameFiles_addFile_moveTemp h content hself hpart]
  · exact absurd hpart h.partEntry
  by_cases hdest : fs.tree dest = some (.file i)
  · rw [renamePart_linked h content hpart hdest, sameFiles_setContent_moveTemp h content hpart hdest]
  · -- the `<dest>.part` is gone
    obtain ⟨fs', hrename, hgone⟩ := renamePart_used h content hpart hdest
    rw [hrename]
    refine iff_of_false (fun hsame => ?_) ?_
    · have hsome := read_part_moveTemp h content hself hpart
      rw [← (hsame _).2, hgone] at hsome
      cases hsome
    · rintro (⟨hnone, -⟩ | ⟨j, hj, hj', -⟩)
      · rw [hpart] at hnone
        cases hnone
      · rw [hpart] at hj
        cases hj
        exact hdest hj'

end unhindered

/-! ### Where a call fails -/

/-- A call that one order makes fails with another text than the calls of the other: each names its own file. -/
structure Host.TextsDiffer (host : Host) (dest : Path) : Prop where
  mkstemp_makedirs : host.osError .mkstemp ≠ host.osError (.makedirs dest.tail)
  mkstemp_openPart : host.osError .mkstemp ≠ host.osError (.openPart (partPath dest))
  mkstemp_replace : host.osError .mkstemp ≠ host.osError (.replace (partPath dest) dest)
  move_openPart : host.osError (.move host.tempPath dest) ≠ host.osError (.openPart (partPath dest))
  move_replace : host.osError (.move host.tempPath dest) ≠ host.osError (.replace (partPath dest) dest)

theorem writeFailed_inj {call call' : SystemCall} (h : writeFailed host call = writeFailed host call') :
    host.osError call = host.osError call' := by
  injection h with hcode hmsg
  exact (String.append_right_inj _).mp hmsg

theorem renamePart_hindered (content : Bytes)
    (h : ¬ (host.mayOpen (partPath dest) = true ∧ host.mayPublish dest = true ∧ fs.tree (partPath dest) ≠ some .dir ∧
      fs.tree dest ≠ some .dir)) :
    (renamePart host dest content fs).1 = writeFailed host (.openPart (partPath dest)) ∨
      (renamePart host dest content fs).1 = writeFailed host (.replace (partPath dest) dest) := by
  unfold renamePart
  rcases hopen : (if host.mayOpen (partPath dest) then fs.openTrunc (partPath dest) else none) with _ | ⟨inode, fs₁⟩
  · exact Or.inl rfl
  dsimp only
  rcases hrename : (if host.mayPublish dest then (fs₁.setContent inode content).renameFile (partPath dest) dest
    else none) with _ | fs₂
  · exact Or.inr rfl
  refine absurd ?_ h
  split_ifs at hopen with hmayOpen
  split_ifs at hrename with hmayPublish
  have hopened := openTrunc_spec hopen
  refine ⟨hmayOpen, hmayPublish, fun hdir => ?_, ?_⟩
  · rcases hopened.origin with hfile | ⟨hnone, -⟩
    · rw [hdir] at hfile
      cases hfile
    · rw [hdir] at hnone
      cases hnone
  · have hdest := renameFile_not_dir hrename
    rwa [setContent_tree, hopened.tree_ne dest (partPath_ne dest).symm] at hdest

theorem moveTemp_answer (host : Host) (dest : Path) (content : Bytes) (fs : FileSystem Str) :
    (moveTemp host dest content fs).1 = .ok dest content.length ∨
      (moveTemp host dest content fs).1 = writeFailed host (.move host.tempPath dest) := by
  unfold moveTemp
  rcases (if host.mayPublish dest then moveFile host host.tempPath dest fs else none) with _ | fs'
  · exact Or.inr rfl
  · exact Or.inl rfl

theorem hindered_ne (htexts : host.TextsDiffer dest) (content : Bytes) (fs' : FileSystem Str)
    (h : ¬ (host.mayOpen (partPath dest) = true ∧ host.mayPublish dest = true ∧ fs.tree (partPath dest) ≠ some .dir ∧
      fs.tree dest ≠ some .dir)) :
    (renamePart host dest content fs).1 ≠ (moveTemp host dest content fs').1 := by
  intro heq
  rcases renamePart_hindered content h with hpart | hpart
  all_goals
    rcases moveTemp_answer host dest content fs' with hmove | hmove
    all_goals rw [hpart, hmove] at heq
  · cases heq
  · exact htexts.move_openPart (writeFailed_inj heq.symm)
  · cases heq
  · exact htexts.move_replace (writeFailed_inj heq.symm)

/-! ### The directories above the destination -/

theorem makedirs_partPath (allowed : Path → Bool) (dest : Path) (fs : FileSystem Str) :
    (makedirs allowed dest.tail fs).2.tree (partPath dest) = fs.tree (partPath dest) := by
  rw [← partPath_tail]
  exact makedirs_tail allowed (partPath dest) fs

theorem sameDestination_makedirs (host : Host) (dest : Path) (content : Bytes) (fs : FileSystem Str) :
    SameDestination host (makedirs host.mayMake dest.tail fs).2 dest content ↔
      SameDestination host fs dest content := by
  obtain ⟨hcontent, -, hfiles⟩ := makedirs_spec host.mayMake dest.tail fs
  simp only [SameDestination, makedirs_partPath, makedirs_tail, hfiles, hcontent]

theorem renamePart_tree_ne (content : Bytes) {q : Path} (hdest : q ≠ dest) (hpart : q ≠ partPath dest) :
    (renamePart host dest content fs).2.tree q = fs.tree q := by
  unfold renamePart
  rcases hopen : (if host.mayOpen (partPath dest) then fs.openTrunc (partPath dest) else none) with _ | ⟨inode, fs₁⟩
  · rfl
  split_ifs at hopen
  have hopened := openTrunc_spec hopen
  dsimp only
  rcases hrename : (if host.mayPublish dest then (fs₁.setContent inode content).renameFile (partPath dest) dest
    else none) with _ | fs₂
  · dsimp only [unlinkQuietly]
    rcases hunlink : (fs₁.setContent inode content).unlink (partPath dest) with _ | fs₂
    · exact hopened.tree_ne q hpart
    · exact ((unlink_spec hunlink).2.1 q hpart).trans (hopened.tree_ne q hpart)
  · split_ifs at hrename
    obtain ⟨j, hrenamed⟩ := renameFile_spec hrename
    exact (hrenamed.tree_ne q hpart hdest).trans (hopened.tree_ne q hpart)

theorem discardTemp_same (habsent : fs.tree host.tempPath = none) (content : Bytes) :
    SameFiles fs (unlinkQuietly (some host.tempPath) (fs.addFile host.tempPath content)) := by
  obtain ⟨fs', hunlink, hsame⟩ := unlink_addFile habsent content
  rwa [unlinkQuietly, hunlink]

theorem ne_of_suffix_tail {p q : Path} (hp : p ≠ []) (h : p <:+ q.tail) : p ≠ q := by
  rintro rfl
  have hlength := h.length_le
  rw [List.length_tail] at hlength
  have hpos := List.length_pos_iff.mpr hp
  omega

/-- The temporary file has the name of a directory that is to be made. -/
theorem store_inWay (hworks : TempWorks host fs) (hclosed : fs.Closed) (content : Bytes)
    (hway : host.tempPath <:+ dest.tail) :
    ((storeByPart host dest content fs).1 = (storeByTemp host dest content (fs.addFile host.tempPath content)).1 ∧
      SameFiles (storeByPart host dest content fs).2
        (storeByTemp host dest content (fs.addFile host.tempPath content)).2) ↔
      host.mayMake host.tempPath = false := by
  obtain ⟨habsent, hdir, -⟩ := hworks
  have hne := ne_nil_of_absent habsent
  have hbelow : ∀ q, host.tempPath <:+ q → fs.tree q = none := fun q => hclosed.absent_below habsent
  have hblocked : makedirs host.mayMake dest.tail (fs.addFile host.tempPath content) =
      (false, fs.addFile host.tempPath content) := by
    apply makedirs_blocked _ _ hway (addFile_self hne content)
    · intro q hq hqne
      rw [addFile_ne hqne, hbelow q hq]
    · rw [addFile_tail hne, hdir]
  have htemp : storeByTemp host dest content (fs.addFile host.tempPath content) =
      (writeFailed host (.makedirs dest.tail),
        unlinkQuietly (some host.tempPath) (fs.addFile host.tempPath content)) := by
    rw [storeByTemp, hblocked]
  have hsame := discardTemp_same habsent content
  obtain ⟨hmade, hdenied⟩ := makedirs_through host.mayMake hdir hway habsent hbelow
  rw [htemp]
  rcases hmay : host.mayMake host.tempPath
  · rw [storeByPart, hdenied hmay]
    exact iff_of_true ⟨rfl, hsame⟩ rfl
  · -- it is a directory after the path-first upload
    refine iff_of_false (fun hboth => ?_) nofun
    have hpart : (storeByPart host dest content fs).2.tree host.tempPath = some .dir := by
      have hdir' := hmade hmay
      unfold storeByPart
      rcases hmake : makedirs host.mayMake dest.tail fs with ⟨_ | _, fs₁⟩
      all_goals rw [hmake] at hdir'
      · exact hdir'
      · dsimp only
        rw [renamePart_tree_ne content (ne_of_suffix_tail hne hway)
          (ne_of_suffix_tail hne (partPath_tail dest ▸ hway))]
        exact hdir'
    have hfs := ((hsame.trans hboth.2.symm) host.tempPath).1.mpr hpart
    rw [habsent] at hfs
    cases hfs

theorem store_iff (hworks : TempWorks host fs) (hclosed : fs.Closed) (htexts : host.TextsDiffer dest)
    (content : Bytes) :
    ((storeByPart host dest content fs).1 = (storeByTemp host dest content (fs.addFile host.tempPath content)).1 ∧
      SameFiles (storeByPart host dest content fs).2
        (storeByTemp host dest content (fs.addFile host.tempPath content)).2) ↔
      (host.tempPath <:+ dest.tail → host.mayMake host.tempPath = false) ∧
        ((makedirs host.mayMake dest.tail fs).1 = true → host.mayOpen (partPath dest) = true ∧
          host.mayPublish dest = true ∧ fs.tree dest ≠ some .dir ∧ SameDestination host fs dest content) := by
  by_cases hway : host.tempPath <:+ dest.tail
  · rw [store_inWay hworks hclosed content hway]
    refine ⟨fun hmay => ⟨fun _ => hmay, fun hmade => ?_⟩, fun hcond => hcond.1 hway⟩
    have hdenied := (makedirs_through host.mayMake hworks.2.1 hway hworks.1
      fun q => hclosed.absent_below hworks.1).2 hmay
    rw [hdenied] at hmade
    cases hmade
  have hne := ne_nil_of_absent hworks.1
  have habsent : (makedirs host.mayMake dest.tail fs).2.tree host.tempPath = none := by
    rw [makedirs_tree_ne _ _ hway, hworks.1]
  have hdest := makedirs_tail host.mayMake dest fs
  have hpart := makedirs_partPath host.mayMake dest fs
  have hsame := sameDestination_makedirs host dest content fs
  rw [storeByPart, storeByTemp, makedirs_addFile host.mayMake hne hway]
  rcases hmake : makedirs host.mayMake dest.tail fs with ⟨_ | _, fs₁⟩
  all_goals rw [hmake] at habsent hdest hpart hsame
  · exact iff_of_true ⟨rfl, discardTemp_same habsent content⟩ ⟨fun hin => absurd hin hway, nofun⟩
  dsimp only at habsent hdest hpart hsame ⊢
  have hnodir : SameDestination host fs dest content → fs₁.tree (partPath dest) ≠ some .dir := by
    rw [hpart]
    rintro (⟨hnone, -⟩ | ⟨i, hfile, -⟩) hdir
    · rw [hnone] at hdir
      cases hdir
    · rw [hfile] at hdir
      cases hdir
  by_cases hcalls : host.mayOpen (partPath dest) = true ∧ host.mayPublish dest = true ∧
      fs₁.tree (partPath dest) ≠ some .dir ∧ fs₁.tree dest ≠ some .dir
  · obtain ⟨hmayOpen, hmayPublish, hpartEntry, hentry⟩ := hcalls
    have hunhindered : Unhindered host fs₁ dest :=
      ⟨habsent, makedirs_made hmake, hentry, hpartEntry, hmayOpen, hmayPublish⟩
    rw [unhindered_iff hunhindered content, hsame]
    constructor
    · exact fun hdestination => ⟨fun hin => absurd hin hway, fun _ => ⟨hmayOpen, hmayPublish, hdest ▸ hentry, hdestination⟩⟩
    · exact fun hcond => (hcond.2 rfl).2.2.2
  · refine iff_of_false (fun hboth => hindered_ne htexts content _ hcalls hboth.1) fun hcond => hcalls ?_
    obtain ⟨hmayOpen, hmayPublish, hentry, hdestination⟩ := hcond.2 rfl
    exact ⟨hmayOpen, hmayPublish, hnodir hdestination, hdest.symm ▸ hentry⟩

/-- The order of the fields makes no difference to an upload. -/
def OrderFree (host : Host) (fs : FileSystem Str) (path content : Bytes) : Prop :=
  TempWorks host fs ∧ (4096 < path.length ∨ ∃ dest, host.realpath (decodeUtf8 path) = some dest ∧
    (host.tempPath <:+ dest.tail → host.mayMake host.tempPath = false) ∧
    ((makedirs host.mayMake dest.tail fs).1 = true → host.mayOpen (partPath dest) = true ∧
      host.mayPublish dest = true ∧ fs.tree dest ≠ some .dir ∧ SameDestination host fs dest content))

theorem storeByPart_answer (host : Host) (dest : Path) (content : Bytes) (fs : FileSystem Str) :
    (storeByPart host dest content fs).1 = .ok dest content.length ∨
      (storeByPart host dest content fs).1 = writeFailed host (.makedirs dest.tail) ∨
      (storeByPart host dest content fs).1 = writeFailed host (.openPart (partPath dest)) ∨
      (storeByPart host dest content fs).1 = writeFailed host (.replace (partPath dest) dest) := by
  unfold storeByPart renamePart
  rcases makedirs host.mayMake dest.tail fs with ⟨_ | _, fs₁⟩
  · exact Or.inr (Or.inl rfl)
  dsimp only
  rcases (if host.mayOpen (partPath dest) then fs₁.openTrunc (partPath dest) else none) with _ | ⟨inode, fs₂⟩
  · exact Or.inr (Or.inr (Or.inl rfl))
  dsimp only
  rcases (if host.mayPublish dest then (fs₂.setContent inode content).renameFile (partPath dest) dest else none)
    with _ | fs₃
  · exact Or.inr (Or.inr (Or.inr rfl))
  · exact Or.inl rfl

theorem pathFirst_ne_mkstemp (htexts : ∀ dest, host.realpath (decodeUtf8 path) = some dest → host.TextsDiffer dest) :
    (pathFirst host path content fs).1 ≠ writeFailed host .mkstemp := by
  intro heq
  unfold pathFirst at heq
  split_ifs at heq
  · cases heq
  rcases hdest : host.realpath (decodeUtf8 path) with _ | dest
  all_goals rw [hdest] at heq
  · cases heq
  have hdiffer := htexts dest hdest
  dsimp only at heq
  rcases storeByPart_answer host dest content fs with hanswer | hanswer | hanswer | hanswer
  all_goals rw [hanswer] at heq
  · cases heq
  · exact hdiffer.mkstemp_makedirs (writeFailed_inj heq.symm)
  · exact hdiffer.mkstemp_openPart (writeFailed_inj heq.symm)
  · exact hdiffer.mkstemp_replace (writeFailed_inj heq.symm)

theorem pathFirst_fileFirst_iff (hclosed : fs.Closed)
    (htexts : ∀ dest, host.realpath (decodeUtf8 path) = some dest → host.TextsDiffer dest) :
    ((pathFirst host path content fs).1 = (fileFirst host path content fs).1 ∧
      SameFiles (pathFirst host path content fs).2 (fileFirst host path content fs).2) ↔
      OrderFree host fs path content := by
  by_cases hworks : TempWorks host fs
  swap
  · have hne : (pathFirst host path content fs).1 ≠ writeFailed host .mkstemp := pathFirst_ne_mkstemp htexts
    rw [fileFirst, if_neg hworks]
    exact iff_of_false (fun hboth => hne hboth.1) fun hcond => hworks hcond.1
  rw [OrderFree, pathFirst, fileFirst, if_pos hworks]
  by_cases hlong : 4096 < path.length
  · dsimp only
    rw [if_pos hlong, if_pos hlong]
    exact iff_of_true ⟨rfl, discardTemp_same hworks.1 content⟩ ⟨hworks, Or.inl hlong⟩
  dsimp only
  rw [if_neg hlong, if_neg hlong]
  rcases hdest : host.realpath (decodeUtf8 path) with _ | dest
  · -- the file-first upload is not answered
    refine iff_of_false (fun hboth => ?_) ?_
    · cases hboth.1
    · rintro ⟨-, hover | ⟨dest, hsome, -⟩⟩
      · exact hlong hover
      · cases hsome
  · dsimp only
    rw [store_iff hworks hclosed (htexts dest hdest)]
    constructor
    · exact fun hcond => ⟨hworks, Or.inr ⟨dest, rfl, hcond⟩⟩
    · rintro ⟨-, hover | ⟨dest', hsome, hcond⟩⟩
      · exact absurd hover hlong
      · cases hsome
        exact hcond

/-- **When the order of the fields makes no difference** to the answer and to the files. -/
theorem doPost_order_iff (alnum : Char → Bool) (host : Host) (fs : FileSystem Str) (path content : Bytes)
    (lengthField typeField : Option Str) (rfile : RFile) (lengthField' typeField' : Option Str) (rfile' : RFile)
    (hpath : path ≠ []) (hquiet : host.Quiet) (hclosed : fs.Closed)
    (htexts : ∀ dest, host.realpath (decodeUtf8 path) = some dest → host.TextsDiffer dest)
    (hpathFirst : Carries alnum lengthField typeField rfile
      [(['p', 'a', 't', 'h'], path), (['f', 'i', 'l', 'e'], content)])
    (hfileFirst : Carries alnum lengthField' typeField' rfile'
      [(['f', 'i', 'l', 'e'], content), (['p', 'a', 't', 'h'], path)]) :
    let out := doPost alnum host lengthField typeField rfile fs
    let out' := doPost alnum host lengthField' typeField' rfile' fs
    (out.1 = out'.1 ∧ SameFiles out.2 out'.2) ↔ OrderFree host fs path content := by
  dsimp only
  rw [doPost_pathFirst hquiet hpath fs hpathFirst, doPost_fileFirst hquiet hpath fs hfileFirst]
  exact pathFirst_fileFirst_iff hclosed htexts

/-- A host where the only calls that fail are those that the tree makes fail. -/
def plainHost : Host :=
  { bufferingHost none with
    osError := fun
      | .write => "write"
      | .mkstemp => "mkstemp"
      | .makedirs _ => "makedirs"
      | .openPart _ => "open"
      | .replace _ _ => "replace"
      | .move _ _ => "move" }

/-- The fields as a body with boundary `B`, uploaded. -/
def uploadInOrder (fields : List Field) (fs : FileSystem Str) : Response × FileSystem Str :=
  doPost (fun _ => false) plainHost (some ['9', '9']) (some ['b', 'o', 'u', 'n', 'd', 'a', 'r', 'y', '=', 'B'])
    ⟨encodeBody [0x42] fields, []⟩ fs

theorem closed_empty : (FileSystem.empty : FileSystem Str).Closed := by
  intro p hp
  obtain rfl : p = [] := by
    by_contra hne
    exact hp (if_neg hne)
  rfl

theorem doPost_order_hi :
    (uploadInOrder [pathField, fileField] .empty).1 = (uploadInOrder [fileField, pathField] .empty).1 ∧
      SameFiles (uploadInOrder [pathField, fileField] .empty).2 (uploadInOrder [fileField, pathField] .empty).2 := by
  refine (doPost_order_iff (fun _ => false) plainHost .empty pathField.value fileField.value
    (some ['9', '9']) (some ['b', 'o', 'u', 'n', 'd', 'a', 'r', 'y', '=', 'B'])
    ⟨encodeBody [0x42] [pathField, fileField], []⟩
    (some ['9', '9']) (some ['b', 'o', 'u', 'n', 'd', 'a', 'r', 'y', '=', 'B'])
    ⟨encodeBody [0x42] [fileField, pathField], []⟩ (by decide) ⟨nofun, rfl⟩ closed_empty ?_ ?_ ?_).mpr ?_
  · intro dest _
    exact ⟨(by decide : "mkstemp" ≠ "makedirs"), (by decide : "mkstemp" ≠ "open"), (by decide : "mkstemp" ≠ "replace"),
      (by decide : "move" ≠ "open"), (by decide : "move" ≠ "replace")⟩
  · exact ⟨99, [0x42], by decide, by decide, by decide, by decide +kernel, by decide +kernel⟩
  · exact ⟨99, [0x42], by decide, by decide, by decide, by decide +kernel, by decide +kernel⟩
  · refine ⟨⟨rfl, rfl, rfl⟩, Or.inr ⟨[['a']], by decide +kernel, fun hway => ?_, fun _ => ⟨rfl, rfl, nofun, ?_⟩⟩⟩
    · cases List.suffix_nil.mp hway
    · exact Or.inl ⟨rfl, Or.inl rfl⟩

/-- An existing directory is refused as a destination, and taken: the file goes into it. A `<dest>.part` that was there
before is used up, and kept. -/
theorem doPost_order_directory :
    let inDirectory := (FileSystem.empty.mkdir [['a']]).getD .empty
    let besidePart := FileSystem.empty.addFile [['a', '.', 'p', 'a', 'r', 't']] [0x78]
    (uploadInOrder [pathField, fileField] inDirectory).1 = .error 500 "write failed: replace" ∧
    (uploadInOrder [fileField, pathField] inDirectory).1 = .ok [['a']] 2 ∧
    (uploadInOrder [fileField, pathField] inDirectory).2.read [['t'], ['a']] = some fileField.value ∧
    (uploadInOrder [pathField, fileField] besidePart).1 = .ok [['a']] 2 ∧
    (uploadInOrder [fileField, pathField] besidePart).1 = .ok [['a']] 2 ∧
    (uploadInOrder [pathField, fileField] besidePart).2.read [['a', '.', 'p', 'a', 'r', 't']] = none ∧
    (uploadInOrder [fileField, pathField] besidePart).2.read [['a', '.', 'p', 'a', 'r', 't']] = some [0x78] := by
  decide +kernel

end SocketServer.Http
